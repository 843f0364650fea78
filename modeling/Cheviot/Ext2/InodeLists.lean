import Cheviot.Ext2.InodeTable

/-!
# The lists of the inode cache: `get_inode`, `find_inode`, `put_inode`

64 slots, chained in 128 hash buckets by inode number; a slot nobody holds is
also on `unused_inode_list`, from whose head `get_inode` takes the slot to
recycle. `put_inode` writes a dirty inode to its table block, and releases an
inode without links.

* `ListsOk` — buckets, unused list, reference counts and inode numbers agree,
  with the slots of `held` referenced as often as they occur there.
* `getInode_ok`, `putInode_ok` — what a call that ends well has done, as one of
  two states each: found or loaded, kept or released.
* `hitState_lists`, `loadState_lists`, `dropRef_lists`, `releasedState_lists` —
  each of them keeps the lists in order, on any volume.

Mirroring notes:
- `truncate_inode` only reports `-ENOSYS`, and `put_inode` ignores that.
- No handler passes a null pointer to `put_inode`.
-/

namespace Cheviot.Ext2

open Cheviot.Bytes Cheviot.Bits

/-! ## The functions -/

/-- `init_inode_cache`. -/
def initInodeCache (s : Fs) : Fs :=
  { s with slot := fun _ => emptySlot, unused := List.range nrInodes, hash := fun _ => [] }

/-- The bucket of an inode number, `(int) ino_nr % INODE_HASH_SIZE`: a number
from 2^31 on is negative as an `int`, and so is its remainder. -/
def bucketOf (ino : Nat) : Except Fault Nat :=
  if ino < 2 ^ 31 then .ok (ino % inodeHashSize)
  else if (2 ^ 32 - ino) % inodeHashSize = 0 then .ok 0
  else .error .outOfBounds

/-- The walk along a bucket that `get_inode` and `find_inode` share. -/
def searchBucket (s : Fs) (h ino : Nat) : Option Nat :=
  (s.hash h).find? fun i => (s.slot i).ino == ino

/-- `addhash_inode`. -/
def addhashInode (s : Fs) (i : Nat) : Fs :=
  let h := (s.slot i).ino % inodeHashSize
  { s with hash := Function.update s.hash h (i :: s.hash h) }

/-- `unhash_inode`. -/
def unhashInode (s : Fs) (i : Nat) : Fs :=
  let h := (s.slot i).ino % inodeHashSize
  { s with hash := Function.update s.hash h ((s.hash h).erase i) }

/-- `find_inode`. -/
def findInode (s : Fs) (ino : Nat) : Except Fault (Option Nat) := do
  let h ← bucketOf ino
  return searchBucket s h ino

/-- `get_inode`. -/
def getInode (v : Volume) (s : Fs) (ino : Nat) : Except Fault (Fs × Option Nat) := do
  let h ← bucketOf ino
  match searchBucket s h ino with
  | some i =>
    let s := if (s.slot i).count = 0 then { s with unused := s.unused.erase i } else s
    return (s.setSlot i { s.slot i with count := (s.slot i).count + 1 }, some i)
  | none =>
    match s.unused with
    | [] => return (s, none)
    | i :: rest =>
      let s := if (s.slot i).ino ≠ noEntry then unhashInode s i else s
      let s := { s with unused := rest }
      let s := s.setSlot i { s.slot i with ino := ino, count := 1 }
      let s ← readInode v s i
      let s := s.setSlot i { s.slot i with update := ⟨false, false, false⟩ }
      return (addhashInode s i, some i)

/-- `truncate_inode`. -/
def truncateInode (s : Fs) (_i _sz : Nat) : Fs × Except Errno Unit := (s, .error .enosys)

/-- `free_inode`. -/
def freeInode (v : Volume) (s : Fs) (i : Nat) : Except Fault Fs :=
  let b := (s.slot i).ino
  if b ≤ noEntry ∨ v.inodesCount < b then .ok s
  else do
    let s ← freeInodeBit v s b (sIsDir (s.slot i).odi.mode)
    return s.modOdi i fun odi => { odi with mode := 0 }

/-- The release in `put_inode`, of an inode without links that nobody holds any more. -/
def releaseInode (v : Volume) (s : Fs) (i : Nat) : Except Fault Fs :=
  if (s.slot i).odi.linksCount = 0 then
    freeInode v (inodeMarkdirty (truncateInode s i 0).1 i) i
  else .ok s

/-- The write in `put_inode`. -/
def flushInode (v : Volume) (env : Env) (s : Fs) (i : Nat) : Except Fault Fs :=
  if (s.slot i).dirty = true then writeInode v env s i else .ok s

/-- `put_inode`. -/
def putInode (v : Volume) (env : Env) (s : Fs) (i : Nat) : Except Fault Fs :=
  if (s.slot i).count < 1 then .error (.panic "put_inode: i_count already below 1")
  else
    let s := s.setSlot i { s.slot i with count := (s.slot i).count - 1 }
    if (s.slot i).count = 0 then do
      let s ← releaseInode v s i
      let s ← flushInode v env s i
      if (s.slot i).odi.linksCount = 0 then
        let s := unhashInode s i
        let s := s.setSlot i { s.slot i with ino := noEntry }
        return { s with unused := i :: s.unused }
      else return { s with unused := s.unused ++ [i] }
    else flushInode v env s i

/-! ## The lists -/

/-- Slot `i` holds inode `n`. -/
def Cached (s : Fs) (n i : Nat) : Prop := i < nrInodes ∧ (s.slot i).ino = n

/-- The lists in order, with the slots of `held` referenced as often as they occur there. -/
structure ListsOk (s : Fs) (held : List Nat) : Prop where
  hash_mem : ∀ h i, i ∈ s.hash h ↔
    i < nrInodes ∧ (s.slot i).ino ≠ noEntry ∧ (s.slot i).ino % inodeHashSize = h
  hash_nodup : ∀ h, (s.hash h).Nodup
  unused_mem : ∀ i, i ∈ s.unused ↔ i < nrInodes ∧ (s.slot i).count = 0
  unused_nodup : s.unused.Nodup
  count_eq : ∀ i, i < nrInodes → (s.slot i).count = held.count i
  held_mem : ∀ i ∈ held, i < nrInodes ∧ (s.slot i).ino ≠ noEntry
  ino_inj : ∀ i j, i < nrInodes → j < nrInodes → (s.slot i).ino = (s.slot j).ino →
    (s.slot i).ino ≠ noEntry → i = j

theorem initInodeCache_lists (s : Fs) : ListsOk (initInodeCache s) [] where
  hash_mem h i := by simp [initInodeCache, emptySlot]
  hash_nodup _ := List.nodup_nil
  unused_mem i := by simp [initInodeCache, emptySlot]
  unused_nodup := List.nodup_range
  count_eq _ _ := rfl
  held_mem _ h := nomatch h
  ino_inj _ _ _ _ _ h := absurd rfl h

section Lists

variable {v : Volume} {s s' : Fs} {held : List Nat}

/-- Only the lists and the numbers and counts of the slots matter. -/
theorem ListsOk.congr (hc : ListsOk s held) (hhash : s'.hash = s.hash)
    (hunused : s'.unused = s.unused) (hino : ∀ i, (s'.slot i).ino = (s.slot i).ino)
    (hcount : ∀ i, (s'.slot i).count = (s.slot i).count) : ListsOk s' held := by
  refine ⟨?_, ?_, ?_, ?_, ?_, ?_, ?_⟩
  · intro h i
    rw [hhash, hino]
    exact hc.hash_mem h i
  · intro h
    rw [hhash]
    exact hc.hash_nodup h
  · intro i
    rw [hunused, hcount]
    exact hc.unused_mem i
  · rw [hunused]
    exact hc.unused_nodup
  · intro i hi
    rw [hcount]
    exact hc.count_eq i hi
  · intro i hi
    rw [hino]
    exact hc.held_mem i hi
  · intro i j hi hj
    rw [hino, hino]
    exact hc.ino_inj i j hi hj

/-- The order in which references are held does not matter. -/
theorem ListsOk.perm {held' : List Nat} (hc : ListsOk s held) (h : held.Perm held') :
    ListsOk s held' :=
  ⟨hc.hash_mem, hc.hash_nodup, hc.unused_mem, hc.unused_nodup,
    fun i hi => (hc.count_eq i hi).trans (h.count_eq i),
    fun i hi => hc.held_mem i (h.mem_iff.mpr hi), hc.ino_inj⟩

theorem ListsOk.count_pos (hc : ListsOk s held) {i : Nat} (hi : i ∈ held) :
    0 < (s.slot i).count := by
  rw [hc.count_eq i (hc.held_mem i hi).1]
  exact List.count_pos_iff.mpr hi

/-- The bucket search finds exactly the slot that holds the inode. -/
theorem ListsOk.search_iff (hc : ListsOk s held) {n i : Nat} (hn : n ≠ noEntry) :
    searchBucket s (n % inodeHashSize) n = some i ↔ Cached s n i := by
  constructor
  · intro h
    have hmem := (hc.hash_mem _ _).mp (List.mem_of_find?_eq_some h)
    have hino := List.find?_some h
    exact ⟨hmem.1, by simpa using hino⟩
  · rintro ⟨hi, hino⟩
    have hmem : i ∈ s.hash (n % inodeHashSize) :=
      (hc.hash_mem _ _).mpr ⟨hi, by rw [hino]; exact hn, by rw [hino]⟩
    cases hfind : searchBucket s (n % inodeHashSize) n with
    | none =>
      have := List.find?_eq_none.mp hfind i hmem
      simp [hino] at this
    | some j =>
      have hj := (hc.hash_mem _ _).mp (List.mem_of_find?_eq_some hfind)
      have hjn : (s.slot j).ino = n := by simpa using List.find?_some hfind
      rw [hc.ino_inj j i hj.1 hi (by rw [hjn, hino]) (by rw [hjn]; exact hn)]

theorem ListsOk.search_none_iff (hc : ListsOk s held) {n : Nat} (hn : n ≠ noEntry) :
    searchBucket s (n % inodeHashSize) n = none ↔ ∀ i, ¬ Cached s n i := by
  constructor
  · intro h i hi
    rw [(hc.search_iff hn).mpr hi] at h
    cases h
  · intro h
    cases hfind : searchBucket s (n % inodeHashSize) n with
    | none => rfl
    | some i => exact absurd ((hc.search_iff hn).mp hfind) (h i)

/-- `find_inode` finds slots that hold the inode. -/
theorem ListsOk.find_cached (hc : ListsOk s held) {n i : Nat}
    (h : findInode s n = .ok (some i)) : Cached s n i ∧ n ≠ noEntry := by
  obtain ⟨b, -, h⟩ := ok_of_bind h
  have hfind : searchBucket s b n = some i := Except.ok.inj h
  have hmem := (hc.hash_mem _ _).mp (List.mem_of_find?_eq_some hfind)
  have hino : (s.slot i).ino = n := by simpa using List.find?_some hfind
  exact ⟨⟨hmem.1, hino⟩, hino ▸ hmem.2.1⟩

/-- As long as fewer than all slots are held, one can be recycled. -/
theorem ListsOk.unused_ne_nil (hc : ListsOk s held) (hlen : held.length < nrInodes) :
    s.unused ≠ [] := by
  intro hnil
  have hall : ∀ i, i < nrInodes → i ∈ held := by
    intro i hi
    by_contra hnot
    have hcount : (s.slot i).count = 0 := by
      rw [hc.count_eq i hi]
      exact List.count_eq_zero.mpr hnot
    have hmem := (hc.unused_mem i).mpr ⟨hi, hcount⟩
    rw [hnil] at hmem
    cases hmem
  have hsub : (List.range nrInodes).Subperm held :=
    List.subperm_of_subset List.nodup_range fun i hi => hall i (List.mem_range.mp hi)
  have := hsub.length_le
  rw [List.length_range] at this
  omega

/-- The head of the unused list is nobody's. -/
theorem ListsOk.head_free (hc : ListsOk s held) {i : Nat} (hhead : s.unused.head? = some i) :
    i < nrInodes ∧ (s.slot i).count = 0 ∧ i ∉ held := by
  have hmem : i ∈ s.unused := List.mem_of_head? hhead
  obtain ⟨hi, h0⟩ := (hc.unused_mem i).mp hmem
  refine ⟨hi, h0, fun hheld => ?_⟩
  have := List.count_pos_iff.mpr hheld
  have := hc.count_eq i hi
  omega

/-! ## `get_inode` -/

/-- The state after `get_inode` has found the inode in slot `i`. -/
def hitState (s : Fs) (i : Nat) : Fs :=
  { s with
    slot := Function.update s.slot i { s.slot i with count := (s.slot i).count + 1 }
    unused := s.unused.erase i }

/-- The state after `get_inode` has recycled slot `i` for inode `n`. -/
def loadState (v : Volume) (s : Fs) (n i : Nat) : Fs :=
  { s with
    slot := Function.update s.slot i
      { s.slot i with
        odi := diskInode v s n, ino := n, count := 1, update := ⟨false, false, false⟩ }
    unused := s.unused.tail
    hash := fun h =>
      if h = n % inodeHashSize then i :: (s.hash h).erase i else (s.hash h).erase i }

theorem hitState_slot (i j : Nat) :
    (hitState s i).slot j =
      if j = i then { s.slot i with count := (s.slot i).count + 1 } else s.slot j := by
  by_cases h : j = i
  · subst h
    simp [hitState]
  · simp [hitState, h]

theorem loadState_slot (n i j : Nat) :
    (loadState v s n i).slot j =
      if j = i then
        { s.slot i with
          odi := diskInode v s n, ino := n, count := 1, update := ⟨false, false, false⟩ }
      else s.slot j := by
  by_cases h : j = i
  · subst h
    simp [loadState]
  · simp [loadState, h]

theorem hitState_ino (i j : Nat) : ((hitState s i).slot j).ino = (s.slot j).ino := by
  rw [hitState_slot]
  split <;> simp_all

theorem hitState_odi (i j : Nat) : ((hitState s i).slot j).odi = (s.slot j).odi := by
  rw [hitState_slot]
  split <;> simp_all

@[simp] theorem loadState_ino (n i j : Nat) :
    ((loadState v s n i).slot j).ino = if j = i then n else (s.slot j).ino := by
  rw [loadState_slot]
  split <;> rfl

/-- The bucket is the number modulo the size of the table, for all numbers that have one. -/
theorem bucketOf_eq_mod {n h : Nat} (hlt : n < 2 ^ 32) (hb : bucketOf n = .ok h) :
    h = n % inodeHashSize := by
  unfold bucketOf at hb
  split at hb
  · cases hb
    rfl
  · split at hb
    · cases hb
      unfold inodeHashSize at *
      omega
    · cases hb

theorem bucketOf_eq {n : Nat} (hn : n < 2 ^ 31) : bucketOf n = .ok (n % inodeHashSize) := by
  rw [bucketOf, if_pos hn]

theorem getInode_hit (hc : ListsOk s held) {n i : Nat} (hn : n ≠ noEntry)
    (hb : bucketOf n = .ok (n % inodeHashSize)) (hi : Cached s n i) :
    getInode v s n = .ok (hitState s i, some i) := by
  rw [getInode, bind_of_ok hb, (hc.search_iff hn).mpr hi]
  simp only
  by_cases h0 : (s.slot i).count = 0
  · rw [if_pos h0]
    rfl
  · have hnot : i ∉ s.unused := fun h => h0 ((hc.unused_mem i).mp h).2
    rw [if_neg h0, hitState, List.erase_of_not_mem hnot]
    rfl

/-- What `get_inode` does once it has the slot to recycle, up to the read. -/
theorem getInode_recycle (hc : ListsOk s held) {n i : Nat} (hn : n ≠ noEntry)
    (hb : bucketOf n = .ok (n % inodeHashSize)) (hnone : ∀ j, ¬ Cached s n j)
    (hhead : s.unused.head? = some i) :
    getInode v s n =
      if v.groupsCount ≤ v.inodeGroup n then .error (.panic "can't get group_desc to read inode")
      else .ok (loadState v s n i, some i) := by
  obtain ⟨rest, hun⟩ : ∃ rest, s.unused = i :: rest := by
    cases hun : s.unused with
    | nil => rw [hun] at hhead; cases hhead
    | cons j rest =>
      rw [hun] at hhead
      simp only [List.head?_cons, Option.some.injEq] at hhead
      exact ⟨rest, by rw [hhead]⟩
  -- taking the slot out of its old bucket is the same as taking it out of all
  have hunhash : (if (s.slot i).ino ≠ noEntry then unhashInode s i else s).hash =
      fun h => (s.hash h).erase i := by
    funext h
    by_cases hino : (s.slot i).ino = noEntry
    · have hnot : i ∉ s.hash h := fun hm => ((hc.hash_mem h i).mp hm).2.1 hino
      rw [if_neg (by simp [hino]), List.erase_of_not_mem hnot]
    · rw [if_pos hino]
      by_cases hh : h = (s.slot i).ino % inodeHashSize
      · simp [unhashInode, hh]
      · have hnot : i ∉ s.hash h := fun hm => hh ((hc.hash_mem h i).mp hm).2.2.symm
        simp [unhashInode, hh, List.erase_of_not_mem hnot]
  have hrest : (if (s.slot i).ino ≠ noEntry then unhashInode s i else s) =
      { s with hash := fun h => (s.hash h).erase i } := by
    rw [← hunhash]
    split <;> rfl
  -- the inode is in no slot, so the first unused one is loaded
  rw [getInode, bind_of_ok hb, (hc.search_none_iff hn).mpr hnone]
  simp only [hun, hrest]
  have hino : ∀ t : Fs, ((t.setSlot i { t.slot i with ino := n, count := 1 }).slot i).ino = n :=
    fun t => by simp [Fs.setSlot]
  unfold readInode
  simp only [hino]
  by_cases hg : v.groupsCount ≤ v.inodeGroup n
  · rw [if_pos hg, if_pos hg]
    rfl
  · rw [if_neg hg, if_neg hg, bind_of_ok rfl]
    simp only [pure, Except.pure, Except.ok.injEq, Prod.mk.injEq, and_true]
    refine Fs.ext rfl rfl rfl rfl rfl ?_ ?_ ?_ rfl
    · simp [Fs.modOdi, Fs.setSlot, addhashInode, loadState, diskInode]
    · simp [Fs.modOdi, Fs.setSlot, addhashInode, loadState, hun]
    · funext h
      by_cases hh : h = n % inodeHashSize
      · simp [Fs.modOdi, Fs.setSlot, addhashInode, loadState, hh]
      · simp [Fs.modOdi, Fs.setSlot, addhashInode, loadState, hh]

/-- What `get_inode` has done: found inode `n` in slot `i`, or recycled the slot for it. -/
inductive GotInode (v : Volume) (s : Fs) (n i : Nat) : Fs → Prop where
  | hit (hi : Cached s n i) : GotInode v s n i (hitState s i)
  | load (hnone : ∀ j, ¬ Cached s n j) (hhead : s.unused.head? = some i)
      (hgroup : v.inodeGroup n < v.groupsCount) : GotInode v s n i (loadState v s n i)

/-- As long as not all slots are held, `get_inode` returns one. -/
theorem getInode_ok (hc : ListsOk s held) (hlen : held.length < nrInodes) {n : Nat}
    (hn : n ≠ noEntry) (hlt : n < 2 ^ 32) {r : Option Nat} (h : getInode v s n = .ok (s', r)) :
    ∃ i, r = some i ∧ GotInode v s n i s' := by
  have hb : bucketOf n = .ok (n % inodeHashSize) := by
    obtain ⟨k, hk, -⟩ := ok_of_bind h
    rw [hk, bucketOf_eq_mod hlt hk]
  by_cases hcached : ∃ i, Cached s n i
  · obtain ⟨i, hi⟩ := hcached
    rw [getInode_hit hc hn hb hi] at h
    cases h
    exact ⟨i, rfl, .hit hi⟩
  · have hnone : ∀ j, ¬ Cached s n j := fun j hj => hcached ⟨j, hj⟩
    obtain ⟨i, hhead⟩ : ∃ i, s.unused.head? = some i := by
      cases hun : s.unused with
      | nil => exact absurd hun (hc.unused_ne_nil hlen)
      | cons i rest => exact ⟨i, rfl⟩
    rw [getInode_recycle hc hn hb hnone hhead] at h
    split at h
    · cases h
    next hg =>
      cases h
      exact ⟨i, rfl, .load hnone hhead (by omega)⟩

theorem hitState_lists (hc : ListsOk s held) {n i : Nat} (hn : n ≠ noEntry)
    (hi : Cached s n i) : ListsOk (hitState s i) (i :: held) := by
  have hcount : ∀ j, ((hitState s i).slot j).count =
      (s.slot j).count + if j = i then 1 else 0 := by
    intro j
    rw [hitState_slot]
    by_cases h : j = i
    · rw [if_pos h, if_pos h, h]
    · rw [if_neg h, if_neg h, Nat.add_zero]
  refine ⟨?_, hc.hash_nodup, ?_, hc.unused_nodup.erase i, ?_, ?_, ?_⟩
  · intro h j
    rw [hitState_ino]
    exact hc.hash_mem h j
  · intro j
    show j ∈ s.unused.erase i ↔ _
    rw [hc.unused_nodup.mem_erase_iff, hc.unused_mem, hcount]
    by_cases h : j = i
    · simp [h]
    · simp [h]
  · intro j hj
    rw [hcount, hc.count_eq j hj, List.count_cons]
    by_cases h : j = i
    · simp [h]
    · simp [h, Ne.symm h]
  · intro j hj
    rw [hitState_ino]
    rcases List.mem_cons.mp hj with rfl | hj
    · exact ⟨hi.1, by rw [hi.2]; exact hn⟩
    · exact hc.held_mem j hj
  · intro j k hj hk
    rw [hitState_ino, hitState_ino]
    exact hc.ino_inj j k hj hk

theorem loadState_lists (hc : ListsOk s held) {n i : Nat} (hn : n ≠ noEntry)
    (hnone : ∀ j, ¬ Cached s n j) (hhead : s.unused.head? = some i) :
    ListsOk (loadState v s n i) (i :: held) := by
  obtain ⟨hi, h0, hnot⟩ := hc.head_free hhead
  have hino := loadState_ino (v := v) (s := s) n i
  have hne : ∀ j, j < nrInodes → (s.slot j).ino ≠ n := fun j hj he => hnone j ⟨hj, he⟩
  refine ⟨?_, ?_, ?_, hc.unused_nodup.tail, ?_, ?_, ?_⟩
  · intro h j
    rw [hino]
    -- the slot leaves its old bucket and goes to the head of the new one
    show j ∈ (if h = n % inodeHashSize then i :: (s.hash h).erase i else (s.hash h).erase i) ↔ _
    by_cases hj : j = i
    · subst hj
      simp only [if_true]
      by_cases hh : h = n % inodeHashSize
      · rw [if_pos hh]
        simp [hi, hn, hh]
      · rw [if_neg hh]
        refine ⟨fun hm => absurd hm ?_, fun ⟨_, _, he⟩ => absurd he.symm hh⟩
        exact List.Nodup.not_mem_erase (hc.hash_nodup h)
    · rw [if_neg hj]
      by_cases hh : h = n % inodeHashSize
      · rw [if_pos hh, List.mem_cons, List.mem_erase_of_ne hj, hc.hash_mem]
        simp [hj]
      · rw [if_neg hh, List.mem_erase_of_ne hj, hc.hash_mem]
  · intro h
    show (if h = n % inodeHashSize then i :: (s.hash h).erase i else (s.hash h).erase i).Nodup
    split
    · exact List.nodup_cons.mpr ⟨(hc.hash_nodup h).not_mem_erase, (hc.hash_nodup h).erase i⟩
    · exact (hc.hash_nodup h).erase i
  · intro j
    rw [loadState_slot]
    have htail : j ∈ s.unused.tail ↔ j ∈ s.unused ∧ j ≠ i := by
      cases hun : s.unused with
      | nil => simp
      | cons k rest =>
        rw [hun] at hhead
        simp only [List.head?_cons, Option.some.injEq] at hhead
        subst hhead
        have hnd := List.nodup_cons.mp (hun ▸ hc.unused_nodup)
        constructor
        · exact fun hm => ⟨List.mem_cons_of_mem _ hm, fun he => hnd.1 (he ▸ hm)⟩
        · exact fun ⟨hm, hne⟩ => (List.mem_cons.mp hm).resolve_left hne
    show j ∈ s.unused.tail ↔ _
    rw [htail, hc.unused_mem]
    by_cases hj : j = i
    · simp [hj]
    · simp [hj]
  · -- the reference counts: the slot loaded has one, and was in no list of those held
    intro j hj
    rw [loadState_slot]
    by_cases hji : j = i
    · subst hji
      rw [if_pos rfl, List.count_cons_self, List.count_eq_zero.mpr hnot]
    · rw [if_neg hji, hc.count_eq j hj, List.count_cons_of_ne fun he => hji he.symm]
  · intro j hj
    rw [hino]
    rcases List.mem_cons.mp hj with rfl | hj
    · rw [if_pos rfl]
      exact ⟨hi, hn⟩
    · have hji : j ≠ i := fun he => hnot (he ▸ hj)
      rw [if_neg hji]
      exact hc.held_mem j hj
  · intro j k hj hk
    -- two slots of one inode: the inode loaded was in no slot
    rw [hino, hino]
    by_cases hji : j = i
    · by_cases hki : k = i
      · exact fun _ _ => hji.trans hki.symm
      · rw [if_pos hji, if_neg hki]
        exact fun he _ => absurd he.symm (hne k hk)
    · by_cases hki : k = i
      · rw [if_neg hji, if_pos hki]
        exact fun he _ => absurd he (hne j hj)
      · rw [if_neg hji, if_neg hki]
        exact hc.ino_inj j k hj hk

/-- After `get_inode` one more reference is held. -/
theorem GotInode.lists {n i : Nat} (h : GotInode v s n i s') (hc : ListsOk s held)
    (hn : n ≠ noEntry) : ListsOk s' (i :: held) := by
  cases h with
  | hit hi => exact hitState_lists hc hn hi
  | load hnone hhead _ => exact loadState_lists hc hn hnone hhead

theorem GotInode.cached {n i : Nat} (h : GotInode v s n i s') (hc : ListsOk s held) :
    Cached s' n i := by
  cases h with
  | hit hi => exact ⟨hi.1, by rw [hitState_ino]; exact hi.2⟩
  | load hnone hhead _ => exact ⟨(hc.head_free hhead).1, by rw [loadState_ino, if_pos rfl]⟩

/-- The slots that are held already keep their numbers. -/
theorem GotInode.ino_held {n i j : Nat} (h : GotInode v s n i s') (hc : ListsOk s held)
    (hj : j ∈ held) : (s'.slot j).ino = (s.slot j).ino := by
  cases h with
  | hit hi => exact hitState_ino i j
  | load _ hhead _ =>
    have hne : j ≠ i := fun he => (hc.head_free hhead).2.2 (he ▸ hj)
    rw [loadState_ino, if_neg hne]

theorem GotInode.slot_ne {n i j : Nat} (h : GotInode v s n i s') (hj : j ≠ i) :
    s'.slot j = s.slot j := by
  cases h with
  | hit _ => rw [hitState_slot, if_neg hj]
  | load _ _ _ => rw [loadState_slot, if_neg hj]

theorem GotInode.blk {n i : Nat} (h : GotInode v s n i s') : s'.blk = s.blk := by
  cases h with
  | hit _ => rfl
  | load _ _ _ => rfl

/-! ## `put_inode` -/

/-- The state after the write in `put_inode`. -/
def flushedInode (v : Volume) (env : Env) (s : Fs) (i : Nat) : Fs :=
  if (s.slot i).dirty = true then wroteInode v env s i else s

/-- The state with one reference to slot `i` less. -/
def dropRef (s : Fs) (i : Nat) : Fs :=
  { s with
    slot := Function.update s.slot i { s.slot i with count := (s.slot i).count - 1 }
    unused := if (s.slot i).count = 1 then s.unused ++ [i] else s.unused }

theorem wroteInode_slot (env : Env) (i j : Nat) :
    (wroteInode v env s i).slot j =
      if j = i then { timed v env (s.slot i) with dirty := false } else s.slot j := by
  by_cases h : j = i
  · subst h
    simp [wroteInode]
  · simp [wroteInode, h]

@[simp] theorem wroteInode_ino (env : Env) (i j : Nat) :
    ((wroteInode v env s i).slot j).ino = (s.slot j).ino := by
  rw [wroteInode_slot]
  split <;> simp_all

@[simp] theorem wroteInode_count (env : Env) (i j : Nat) :
    ((wroteInode v env s i).slot j).count = (s.slot j).count := by
  rw [wroteInode_slot]
  split <;> simp_all

theorem wroteInode_lists (hc : ListsOk s held) (env : Env) (i : Nat) :
    ListsOk (wroteInode v env s i) held :=
  hc.congr rfl rfl (wroteInode_ino env i) (wroteInode_count env i)

theorem dropRef_slot (i j : Nat) :
    (dropRef s i).slot j =
      if j = i then { s.slot i with count := (s.slot i).count - 1 } else s.slot j := by
  by_cases h : j = i
  · subst h
    simp [dropRef]
  · simp [dropRef, h]

@[simp] theorem dropRef_ino (i j : Nat) : ((dropRef s i).slot j).ino = (s.slot j).ino := by
  rw [dropRef_slot]
  split <;> simp_all

@[simp] theorem dropRef_odi (i j : Nat) : ((dropRef s i).slot j).odi = (s.slot j).odi := by
  rw [dropRef_slot]
  split <;> simp_all

/-- Giving back a reference. -/
theorem dropRef_lists (hc : ListsOk s held) {i : Nat} (hi : i ∈ held) :
    ListsOk (dropRef s i) (held.erase i) := by
  obtain ⟨hlt, hne⟩ := hc.held_mem i hi
  have hpos := hc.count_pos hi
  have hnotin : i ∉ s.unused := fun h => by
    have := ((hc.unused_mem i).mp h).2
    omega
  have hcount : ∀ j, ((dropRef s i).slot j).count =
      if j = i then (s.slot i).count - 1 else (s.slot j).count := by
    intro j
    rw [dropRef_slot]
    split <;> rfl
  refine ⟨?_, hc.hash_nodup, ?_, ?_, ?_, ?_, ?_⟩
  · intro h j
    rw [dropRef_ino]
    exact hc.hash_mem h j
  · intro j
    -- the slot becomes unused with its last reference
    show j ∈ (if (s.slot i).count = 1 then s.unused ++ [i] else s.unused) ↔ _
    rw [hcount]
    by_cases h1 : (s.slot i).count = 1
    · rw [if_pos h1, List.mem_append, List.mem_singleton, hc.unused_mem]
      by_cases hji : j = i
      · simp [hji, h1, hlt]
      · simp [hji]
    · rw [if_neg h1, hc.unused_mem]
      by_cases hji : j = i
      · subst hji
        rw [if_pos rfl]
        constructor <;> intro h <;> omega
      · rw [if_neg hji]
  · show (if (s.slot i).count = 1 then s.unused ++ [i] else s.unused).Nodup
    split
    · exact hc.unused_nodup.append (List.nodup_singleton i) (by simpa using hnotin)
    · exact hc.unused_nodup
  · intro j hj
    rw [hcount]
    by_cases hji : j = i
    · rw [if_pos hji, hji, List.count_erase_self, hc.count_eq i hlt]
    · rw [if_neg hji, hc.count_eq j hj, List.count_erase_of_ne hji]
  · intro j hj
    rw [dropRef_ino]
    exact hc.held_mem j (List.mem_of_mem_erase hj)
  · intro j k hj hk
    rw [dropRef_ino, dropRef_ino]
    exact hc.ino_inj j k hj hk

/-- Writing an inode and counting its references down do not interfere. -/
theorem flushedInode_count (env : Env) (i c : Nat) :
    flushedInode v env (s.setSlot i { s.slot i with count := c }) i =
      (flushedInode v env s i).setSlot i { (flushedInode v env s i).slot i with count := c } := by
  unfold flushedInode
  by_cases hd : (s.slot i).dirty = true
  · rw [if_pos hd, if_pos (by simpa [Fs.setSlot] using hd)]
    simp only [wroteInode, Fs.setSlot, Function.update_self, Function.update_idem, timed_with_count]
  · rw [if_neg hd, if_neg (by simpa [Fs.setSlot] using hd)]

@[simp] theorem flushedInode_ino (env : Env) (i j : Nat) :
    ((flushedInode v env s i).slot j).ino = (s.slot j).ino := by
  unfold flushedInode
  split <;> simp

@[simp] theorem flushedInode_count_eq (env : Env) (i j : Nat) :
    ((flushedInode v env s i).slot j).count = (s.slot j).count := by
  unfold flushedInode
  split <;> simp

theorem flushedInode_dirty (env : Env) (i : Nat) :
    ((flushedInode v env s i).slot i).dirty = false := by
  unfold flushedInode
  by_cases hd : (s.slot i).dirty = true
  · rw [if_pos hd, wroteInode_slot, if_pos rfl]
  · rw [if_neg hd]
    simpa using hd

@[simp] theorem flushedInode_untimed (env : Env) (i j : Nat) :
    ((flushedInode v env s i).slot j).odi.untimed = (s.slot j).odi.untimed := by
  unfold flushedInode
  split
  · rw [wroteInode_slot]
    split
    next he => rw [he]; exact untimed_timed v env _
    next => rfl
  · rfl

theorem flushedInode_lists (hc : ListsOk s held) (env : Env) (i : Nat) :
    ListsOk (flushedInode v env s i) held :=
  hc.congr (by unfold flushedInode; split <;> rfl) (by unfold flushedInode; split <;> rfl)
    (flushedInode_ino env i) (flushedInode_count_eq env i)

/-- The write in `put_inode`, as one equation. -/
theorem flushInode_def (env : Env) (i : Nat) :
    flushInode v env s i =
      if (s.slot i).dirty = true ∧ v.groupsCount ≤ v.inodeGroup (s.slot i).ino then
        .error (.panic "can't get group_desc to write inode")
      else .ok (flushedInode v env s i) := by
  unfold flushInode flushedInode
  by_cases hd : (s.slot i).dirty = true
  · simp only [hd, if_true, true_and, writeInode_def]
  · simp [hd]

/-! ### Releasing an inode -/

/-- The state in `put_inode` once `free_inode` is done, which leaves alone an
inode with a number past the last one. -/
def freedInode (v : Volume) (s : Fs) (i : Nat) : Fs :=
  if v.inodesCount < (s.slot i).ino then
    s.setSlot i { s.slot i with count := 0, dirty := true }
  else
    (unmarkInode v s (pred32 (s.slot i).ino / v.inodesPerGroup) (s.slot i).ino
        (sIsDir (s.slot i).odi.mode)).setSlot i
      { s.slot i with odi := { (s.slot i).odi with mode := 0 }, count := 0, dirty := true }

/-- The state after `put_inode` has released the inode of slot `i`. -/
def releasedState (v : Volume) (env : Env) (s : Fs) (i : Nat) : Fs :=
  let s' := wroteInode v env (freedInode v s i) i
  { s' with
    slot := Function.update s'.slot i { s'.slot i with ino := noEntry }
    hash := fun h => (s.hash h).erase i
    unused := i :: s.unused }

/-- The mode `free_inode` leaves. -/
def freedMode (v : Volume) (x : Inode) : UInt16 :=
  if v.inodesCount < x.ino then x.odi.mode else 0

theorem freedInode_slot (i j : Nat) :
    (freedInode v s i).slot j =
      if j = i then
        { s.slot i with
          odi := { (s.slot i).odi with mode := freedMode v (s.slot i) }, count := 0, dirty := true }
      else s.slot j := by
  unfold freedInode freedMode
  by_cases h : j = i
  · subst h
    split <;> simp [Fs.setSlot]
  · split <;> simp [Fs.setSlot, unmarkInode, h]

theorem releasedState_slot (env : Env) (i j : Nat) :
    (releasedState v env s i).slot j =
      if j = i then
        { timed v env ((freedInode v s i).slot i) with dirty := false, ino := noEntry }
      else s.slot j := by
  by_cases h : j = i
  · subst h
    simp [releasedState, wroteInode_slot]
  · simp [releasedState, wroteInode_slot, freedInode_slot, h]

theorem releasedState_ino (env : Env) (i j : Nat) :
    ((releasedState v env s i).slot j).ino = if j = i then noEntry else (s.slot j).ino := by
  rw [releasedState_slot]
  split <;> rfl

/-- Taking a cached slot out of its bucket is taking it out of all buckets. -/
theorem ListsOk.unhash_eq (hc : ListsOk s held) {i : Nat} {h : Nat}
    (hh : h = (s.slot i).ino % inodeHashSize) :
    Function.update s.hash h ((s.hash h).erase i) = fun h => (s.hash h).erase i := by
  funext k
  by_cases hk : k = h
  · rw [hk, Function.update_self]
  · have hnot : i ∉ s.hash k := fun hm => hk (by rw [hh]; exact ((hc.hash_mem k i).mp hm).2.2.symm)
    rw [Function.update_of_ne hk, List.erase_of_not_mem hnot]

/-- The last reference given back together with the inode. -/
theorem releasedState_lists (hc : ListsOk s held) {i : Nat} (hi : i ∈ held)
    (hcount : (s.slot i).count = 1) (env : Env) :
    ListsOk (releasedState v env s i) (held.erase i) := by
  obtain ⟨hlt, hne⟩ := hc.held_mem i hi
  have hino := releasedState_ino (v := v) (s := s) env i
  have hcnt : ∀ j, ((releasedState v env s i).slot j).count =
      if j = i then 0 else (s.slot j).count := by
    intro j
    rw [releasedState_slot]
    split
    · simp [freedInode_slot]
    · rfl
  have hone : held.count i = 1 := by rw [← hc.count_eq i hlt, hcount]
  -- it was the last reference
  have hgone : i ∉ held.erase i := by
    rw [← List.count_eq_zero, List.count_erase_self, hone]
  refine ⟨?_, fun h => (hc.hash_nodup h).erase i, ?_, ?_, ?_, ?_, ?_⟩
  · intro h j
    -- out of its bucket, and at the head of the unused slots
    show j ∈ (s.hash h).erase i ↔ _
    rw [(hc.hash_nodup h).mem_erase_iff, hc.hash_mem, hino]
    by_cases hj : j = i
    · simp [hj]
    · simp [hj]
  · intro j
    show j ∈ i :: s.unused ↔ _
    rw [List.mem_cons, hc.unused_mem, hcnt]
    by_cases hj : j = i
    · simp [hj, hlt]
    · simp [hj]
  · refine List.nodup_cons.mpr ⟨fun h => ?_, hc.unused_nodup⟩
    have := ((hc.unused_mem i).mp h).2
    omega
  · intro j hj
    rw [hcnt]
    by_cases hji : j = i
    · rw [if_pos hji, hji, List.count_erase_self, hone]
    · rw [if_neg hji, hc.count_eq j hj, List.count_erase_of_ne hji]
  · intro j hj
    have hji : j ≠ i := fun he => hgone (he ▸ hj)
    rw [hino, if_neg hji]
    exact hc.held_mem j (List.mem_of_mem_erase hj)
  · intro j k hj hk
    rw [hino, hino]
    by_cases hji : j = i
    · rw [if_pos hji]
      exact fun _ h => absurd rfl h
    · rw [if_neg hji]
      by_cases hki : k = i
      · rw [if_pos hki]
        exact fun he h => absurd he h
      · rw [if_neg hki]
        exact hc.ino_inj j k hj hk

/-! ### What `put_inode` does -/

/-- What `put_inode` has done with slot `i`: written the inode if it was dirty and
given the reference back, or released the inode too. -/
inductive PutInode (v : Volume) (env : Env) (s : Fs) (i : Nat) : Fs → Prop where
  | keep (hkeep : (s.slot i).odi.linksCount ≠ 0 ∨ 1 < (s.slot i).count)
      (hgroup : (s.slot i).dirty = true → v.inodeGroup (s.slot i).ino < v.groupsCount) :
      PutInode v env s i (dropRef (flushedInode v env s i) i)
  | release (hcount : (s.slot i).count = 1) (hlinks : (s.slot i).odi.linksCount = 0)
      (hcan : (s.slot i).ino ≤ v.inodesCount → CanFreeInode v s (s.slot i).ino)
      (hgroup : v.inodeGroup (s.slot i).ino < v.groupsCount) :
      PutInode v env s i (releasedState v env s i)

theorem PutInode.lists {env : Env} {i : Nat} (h : PutInode v env s i s') (hc : ListsOk s held)
    (hi : i ∈ held) : ListsOk s' (held.erase i) := by
  cases h with
  | keep _ _ => exact dropRef_lists (flushedInode_lists hc env i) hi
  | release hcount _ _ _ => exact releasedState_lists hc hi hcount env

theorem PutInode.slot_ne {env : Env} {i j : Nat} (h : PutInode v env s i s') (hj : j ≠ i) :
    s'.slot j = s.slot j := by
  cases h with
  | keep _ _ =>
    rw [dropRef_slot, if_neg hj]
    unfold flushedInode
    split
    · rw [wroteInode_slot, if_neg hj]
    · rfl
  | release _ _ _ _ => rw [releasedState_slot, if_neg hj]

/-- A slot of which there is another reference keeps its number. -/
theorem PutInode.ino_held {env : Env} {i j : Nat} {rest : List Nat} (h : PutInode v env s i s')
    (hc : ListsOk s (i :: rest)) (hj : j ∈ rest) : (s'.slot j).ino = (s.slot j).ino := by
  cases h with
  | keep _ _ => rw [dropRef_ino, flushedInode_ino]
  | release hcount _ _ _ =>
    have hne : j ≠ i := by
      intro heq
      subst heq
      -- the only reference has been given back
      have htwo := hc.count_eq j (hc.held_mem j List.mem_cons_self).1
      have hpos := List.count_pos_iff.mpr hj
      rw [List.count_cons_self] at htwo
      omega
    rw [releasedState_ino, if_neg hne]

/-- `put_inode` of an inode that keeps a link or another reference. -/
theorem putInode_keep (hc : ListsOk s held) {i : Nat} (hi : i ∈ held)
    (hkeep : (s.slot i).odi.linksCount ≠ 0 ∨ 1 < (s.slot i).count) (env : Env) :
    putInode v env s i =
      if (s.slot i).dirty = true ∧ v.groupsCount ≤ v.inodeGroup (s.slot i).ino then
        .error (.panic "can't get group_desc to write inode")
      else .ok (dropRef (flushedInode v env s i) i) := by
  have hpos := hc.count_pos hi
  have hslot : (s.setSlot i { s.slot i with count := (s.slot i).count - 1 }).slot i =
      { s.slot i with count := (s.slot i).count - 1 } := by simp [Fs.setSlot]
  have hflush := flushInode_def (v := v) env i
    (s := s.setSlot i { s.slot i with count := (s.slot i).count - 1 })
  rw [flushedInode_count, hslot] at hflush
  unfold putInode
  rw [if_neg (by omega)]
  simp only [hslot]
  by_cases h1 : (s.slot i).count = 1
  · -- the last reference, to an inode that keeps a link
    have hlinks : (s.slot i).odi.linksCount ≠ 0 := by
      rcases hkeep with h | h
      · exact h
      · omega
    have hlinks' : ((flushedInode v env s i).slot i).odi.linksCount ≠ 0 := by
      have := congrArg OndiskInode.linksCount (flushedInode_untimed (v := v) (s := s) env i i)
      simp only [OndiskInode.untimed] at this
      rw [this]
      exact hlinks
    rw [if_pos (by omega), releaseInode, hslot]
    simp only [if_neg hlinks]
    rw [bind_of_ok rfl, hflush]
    split
    · rfl
    · rw [bind_of_ok rfl]
      simp only [Fs.setSlot, Function.update_self, if_neg hlinks']
      have hunused : (flushedInode v env s i).unused = s.unused := by
        unfold flushedInode
        split <;> rfl
      simp [dropRef, h1, pure, Except.pure]
  · rw [if_neg (by omega), hflush]
    split
    · rfl
    · rw [dropRef, flushedInode_count_eq, if_neg h1]
      rfl

/-- `put_inode` of the last reference to an inode without links. -/
theorem putInode_release (hc : ListsOk s held) {i : Nat} (hi : i ∈ held)
    (hcount : (s.slot i).count = 1) (hlinks : (s.slot i).odi.linksCount = 0) {env : Env}
    (h : putInode v env s i = .ok s') : PutInode v env s i s' := by
  obtain ⟨hlt, hne⟩ := hc.held_mem i hi
  let t : Fs := s.setSlot i { s.slot i with count := 0, dirty := true }
  have ht : t.slot i = { s.slot i with count := 0, dirty := true } := by simp [t, Fs.setSlot]
  -- what the call is, with the steps of the release in a row
  have hmid : putInode v env s i = (do
      let s ← freeInode v t i
      let s ← flushInode v env s i
      if (s.slot i).odi.linksCount = 0 then
        let s := unhashInode s i
        let s := s.setSlot i { s.slot i with ino := noEntry }
        return { s with unused := i :: s.unused }
      else return { s with unused := s.unused ++ [i] }) := by
    unfold putInode
    rw [if_neg (by omega)]
    simp only [hcount, Fs.setSlot, Function.update_self, releaseInode, hlinks, if_true,
      truncateInode, inodeMarkdirty, Function.update_idem]
    rfl
  rw [hmid] at h
  obtain ⟨s₁, hfree, hrest⟩ := ok_of_bind h
  -- an inode past the end of the volume has no bit to be cleared
  have hfreed : s₁ = freedInode v s i ∧
      ((s.slot i).ino ≤ v.inodesCount → CanFreeInode v s (s.slot i).ino) := by
    rw [freeInode] at hfree
    simp only [ht] at hfree
    by_cases hpast : v.inodesCount < (s.slot i).ino
    · rw [if_pos (.inr hpast)] at hfree
      cases hfree
      rw [freedInode, if_pos hpast]
      exact ⟨rfl, fun hle => absurd hle (by omega)⟩
    · have hrange : ¬((s.slot i).ino ≤ noEntry ∨ v.inodesCount < (s.slot i).ino) := by
        have : (s.slot i).ino ≠ 0 := hne
        rintro (h0 | h0)
        · have : (s.slot i).ino ≤ 0 := h0
          omega
        · exact hpast h0
      rw [if_neg hrange] at hfree
      obtain ⟨s₂, hbit, heq⟩ := ok_of_bind hfree
      obtain ⟨hcan, rfl⟩ := freeInodeBit_eq_ok.mp hbit
      cases heq
      rw [freedInode, if_neg hpast]
      exact ⟨by simp [unmarkInode, Fs.modOdi, Fs.setSlot, t], fun _ => hcan⟩
  obtain ⟨rfl, hcan⟩ := hfreed
  have hslot := freedInode_slot (v := v) (s := s) i i
  rw [if_pos rfl] at hslot
  rw [flushInode_def, flushedInode, hslot] at hrest
  by_cases hg : v.groupsCount ≤ v.inodeGroup (s.slot i).ino
  · rw [if_pos ⟨rfl, hg⟩] at hrest
    cases hrest
  · rw [if_neg fun hn => hg hn.2, bind_of_ok (by rw [if_pos rfl])] at hrest
    -- writing the inode sets times only, so it still has no link and leaves the table
    have hlinks' : ((wroteInode v env (freedInode v s i) i).slot i).odi.linksCount = 0 := by
      have := congrArg OndiskInode.linksCount (untimed_timed v env ((freedInode v s i).slot i))
      rw [hslot] at this
      rw [wroteInode_slot, if_pos rfl, hslot]
      exact this.trans hlinks
    simp only [hlinks', if_true] at hrest
    have heq : s' = releasedState v env s i := by
      have hhash := hc.unhash_eq (i := i) rfl
      have hlists : (freedInode v s i).hash = s.hash ∧ (freedInode v s i).unused = s.unused := by
        unfold freedInode
        split <;> exact ⟨rfl, rfl⟩
      cases hrest
      refine Fs.ext rfl rfl rfl rfl rfl ?_ ?_ ?_ rfl
      · simp [unhashInode, Fs.setSlot, releasedState]
      · exact congrArg (i :: ·) hlists.2
      · simp only [unhashInode, Fs.setSlot, wroteInode_ino, releasedState]
        rw [hslot, ← hhash, show (wroteInode v env (freedInode v s i) i).hash = s.hash from hlists.1]
    rw [heq]
    exact .release hcount hlinks hcan (by omega)

/-- A call of `put_inode` on a slot that is held, and that ends well. -/
theorem putInode_ok (hc : ListsOk s held) {i : Nat} (hi : i ∈ held) {env : Env}
    (h : putInode v env s i = .ok s') : PutInode v env s i s' := by
  have hpos := hc.count_pos hi
  by_cases hrel : (s.slot i).odi.linksCount = 0 ∧ (s.slot i).count = 1
  · exact putInode_release hc hi hrel.2 hrel.1 h
  · have hkeep : (s.slot i).odi.linksCount ≠ 0 ∨ 1 < (s.slot i).count := by
      by_cases h0 : (s.slot i).odi.linksCount = 0
      · have h1 : (s.slot i).count ≠ 1 := fun h1 => hrel ⟨h0, h1⟩
        exact .inr (by omega)
      · exact .inl h0
    rw [putInode_keep hc hi hkeep env] at h
    split at h
    · cases h
    next hg =>
      cases h
      exact .keep hkeep fun hd => by
        by_contra hnot
        exact hg ⟨hd, by omega⟩

end Lists

end Cheviot.Ext2
