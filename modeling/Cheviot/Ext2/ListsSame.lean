import Cheviot.Lib.Run
import Cheviot.Ext2.Ops

/-!
# What leaves the lists of the inode cache alone

Only `get_inode` and `put_inode` touch the hash buckets, the unused list and the
numbers and counts of the slots. Everything else that a handler calls leaves them
as they are (`ListsSame`), on any volume and from any state.
-/

namespace Cheviot.Ext2

open Cheviot.Run

/-- The two states have the same lists, numbers and counts. -/
structure ListsSame (s s' : Fs) : Prop where
  hash : s'.hash = s.hash
  unused : s'.unused = s.unused
  ino : ∀ i, (s'.slot i).ino = (s.slot i).ino
  count : ∀ i, (s'.slot i).count = (s.slot i).count

variable {v : Volume} {env : Env} {s s' s'' : Fs} {held : List Nat}

theorem ListsSame.refl (s : Fs) : ListsSame s s := ⟨rfl, rfl, fun _ => rfl, fun _ => rfl⟩

theorem ListsSame.trans (h : ListsSame s s') (h' : ListsSame s' s'') : ListsSame s s'' :=
  ⟨h'.hash.trans h.hash, h'.unused.trans h.unused, fun i => (h'.ino i).trans (h.ino i),
    fun i => (h'.count i).trans (h.count i)⟩

theorem ListsOk.same (hc : ListsOk s held) (h : ListsSame s s') : ListsOk s' held :=
  hc.congr h.hash h.unused h.ino h.count

theorem ListsSame.setSlot (s : Fs) {i : Nat} {x : Inode} (hino : x.ino = (s.slot i).ino)
    (hcount : x.count = (s.slot i).count) : ListsSame s (s.setSlot i x) := by
  refine ⟨rfl, rfl, fun j => ?_, fun j => ?_⟩
  all_goals
    by_cases hj : j = i
    · subst hj
      simp [Fs.setSlot, hino, hcount]
    · simp [Fs.setSlot, hj]

theorem ListsSame.modOdi (s : Fs) (i : Nat) (f : OndiskInode → OndiskInode) :
    ListsSame s (s.modOdi i f) := .setSlot s rfl rfl

theorem ListsSame.writeBlk (s : Fs) (b : Nat) (buf : Bytes.Buf) :
    ListsSame s (s.writeBlk b buf) := ⟨rfl, rfl, fun _ => rfl, fun _ => rfl⟩

theorem ListsSame.markdirty (s : Fs) (i : Nat) : ListsSame s (inodeMarkdirty s i) :=
  .setSlot s rfl rfl

theorem ListsSame.addSectors (s : Fs) (i : Nat) : ListsSame s (addSectors v s i) := .modOdi s i _

theorem ListsSame.setBlockEntry (s : Fs) (i : Nat) (k : Fin 15) (block : Nat) :
    ListsSame s (setBlockEntry s i k block) := .modOdi s i _

/-- A computation that ends with a state leaves the lists alone. -/
abbrev KeepsLists (s : Fs) (x : Except Fault Fs) : Prop := Ends x (ListsSame s)

/-- A computation that ends with a state and a value leaves the lists alone. -/
abbrev KeepsListsWith {α : Type} (s : Fs) (x : Except Fault (Fs × α)) : Prop :=
  Ends x fun r => ListsSame s r.1

/-! ## Inodes and bitmaps -/

theorem writeInode_keepsLists (s : Fs) (i : Nat) : KeepsLists s (writeInode v env s i) := by
  rw [writeInode_def]
  split
  · exact .error _
  · exact .ok ⟨rfl, rfl, wroteInode_ino env i, wroteInode_count env i⟩

theorem allocInodeBit_keepsLists (s : Fs) (group : Nat) (isDir : Bool) :
    KeepsListsWith s (allocInodeBit v s group isDir) := by
  unfold allocInodeBit
  split
  · exact .error _
  split
  · exact .error _
  refine Ends.bind (P := fun _ => True) (fun _ _ => trivial) fun r _ => ?_
  match r with
  | none => exact .error _
  | some (bitmap, bit) =>
    simp only
    split
    · exact .error _
    split
    · exact .error _
    exact .ok ⟨rfl, rfl, fun _ => rfl, fun _ => rfl⟩

theorem allocBlockLoop_keepsLists (s : Fs) : ∀ (n i word : Nat),
    KeepsListsWith s (allocBlockLoop v s n i word)
  | 0, _, _ => .ok (ListsSame.refl s)
  | n + 1, i, word => by
    unfold allocBlockLoop
    simp only
    split
    · exact .error _
    split
    · exact allocBlockLoop_keepsLists s n (i + 1) 0
    refine Ends.bind (P := fun _ => True) (fun _ _ => trivial) fun r _ => ?_
    match r with
    | none =>
      simp only
      split
      · exact .error _
      · exact allocBlockLoop_keepsLists s n (i + 1) word
    | some (bitmap, bit) =>
      refine Ends.bind (P := fun _ => True) (fun _ _ => trivial) fun _ _ => ?_
      exact .ok ⟨rfl, rfl, fun _ => rfl, fun _ => rfl⟩

theorem allocBlock_keepsLists (s : Fs) (ino goal : Nat) :
    KeepsListsWith s (allocBlock v env s ino goal) := by
  unfold allocBlock
  split
  · exact .ok (ListsSame.refl s)
  · exact allocBlockLoop_keepsLists s _ _ _

theorem freeBlock_keepsLists (s : Fs) (block : Nat) :
    KeepsLists s (freeBlock v env s block) := by
  unfold freeBlock
  split
  · exact .error _
  simp only
  split
  · exact .error _
  refine Ends.bind (P := fun _ => True) (fun _ _ => trivial) fun _ _ => ?_
  refine Ends.bind (P := fun _ => True) (fun _ _ => trivial) fun r _ => ?_
  match r with
  | none => exact .error _
  | some bitmap => exact .ok ⟨rfl, rfl, fun _ => rfl, fun _ => rfl⟩

/-! ## Block maps -/

theorem enterIndirect_keepsLists (i newBlock : Nat) (path : List Nat) : ∀ (s : Fs) (block : Nat),
    KeepsListsWith s (enterIndirect v env i newBlock s block path) := by
  induction path with
  | nil =>
    intro s block
    exact .ok (ListsSame.refl s)
  | cons index path ih =>
    intro s block
    match path with
    | [] => exact .ok ((ListsSame.writeBlk s block _).trans (.addSectors _ i))
    | a :: path =>
      rw [enterIndirect_cons]
      simp only
      split
      · refine Ends.bind (allocBlock_keepsLists s _ _) fun r hr => ?_
        obtain ⟨t, next⟩ := r
        simp only
        split
        · exact .pure hr
        · refine (ih _ next).mono fun _ h => hr.trans (ListsSame.trans ?_ h)
          exact ((ListsSame.writeBlk t next _).trans (.writeBlk _ block _)).trans (.addSectors _ i)
      · exact ih s _

theorem enterMapEntry_keepsLists (s : Fs) (i position newBlock : Nat) :
    KeepsListsWith s (enterMapEntry v env s i position newBlock) := by
  unfold enterMapEntry
  split
  · exact .ok (ListsSame.refl s)
  have hdirty := ListsSame.markdirty s i
  simp only
  split
  · exact .pure ((hdirty.trans (.setBlockEntry _ i _ newBlock)).trans (.addSectors _ i))
  split
  · refine Ends.bind (allocBlock_keepsLists _ _ _) fun r hr => ?_
    obtain ⟨t, block⟩ := r
    have ht : ListsSame s t := hdirty.trans hr
    simp only
    split
    · exact .pure ht
    · refine (enterIndirect_keepsLists i newBlock _ _ block).mono fun _ h => ?_
      have hblk := ListsSame.writeBlk t block Bytes.zeroed
      exact (((ht.trans hblk).trans (.setBlockEntry _ i _ block)).trans (.addSectors _ i)).trans h
  · exact (enterIndirect_keepsLists i newBlock _ _ _).mono fun _ h => hdirty.trans h

theorem newBlock_keepsLists (s : Fs) (i position : Nat) :
    KeepsListsWith s (newBlock v env s i position) := by
  unfold newBlock
  simp only
  split
  · refine Ends.bind (allocBlock_keepsLists s _ _) fun r hr => ?_
    obtain ⟨t, block⟩ := r
    simp only
    split
    · exact .pure hr
    refine Ends.bind (enterMapEntry_keepsLists t i position block) fun r ht => ?_
    obtain ⟨u, sc⟩ := r
    have hu : ListsSame s u := hr.trans ht
    match sc with
    | .error _ =>
      refine Ends.bind (freeBlock_keepsLists u block) fun w hw => ?_
      exact .pure (hu.trans hw)
    | .ok _ => exact .pure (hu.trans ⟨rfl, rfl, fun _ => rfl, fun _ => rfl⟩)
  · exact .pure ⟨rfl, rfl, fun _ => rfl, fun _ => rfl⟩

/-! ## Files -/

theorem writeChunk_keepsLists (s : Fs) (i position off chunkSize : Nat) (msg : List UInt8)
    (msgOff : Nat) :
    KeepsListsWith s (writeChunk v env s i position off chunkSize msg msgOff) := by
  have hbuf : KeepsListsWith s (chunkBuffer v env s i position off chunkSize) := by
    unfold chunkBuffer
    simp only
    split
    · exact newBlock_keepsLists s i position
    split
    · exact .ok ⟨rfl, rfl, fun _ => rfl, fun _ => rfl⟩
    split
    · exact .ok ⟨rfl, rfl, fun _ => rfl, fun _ => rfl⟩
    · exact .ok (ListsSame.refl s)
  refine Ends.bind hbuf fun r hr => ?_
  obtain ⟨t, buf⟩ := r
  match buf with
  | none => exact .pure hr
  | some block => exact .pure (hr.trans (.writeBlk t block _))

theorem writeLoop_keepsLists (i : Nat) (msg : List UInt8) :
    ∀ (fuel : Nat) (s : Fs) (nbytes position total : Nat),
      KeepsListsWith s (writeLoop v env i msg fuel s nbytes position total)
  | 0, _, _, _, _ => .error _
  | fuel + 1, s, nbytes, position, total => by
    unfold writeLoop
    split
    · exact .ok (ListsSame.refl s)
    refine Ends.bind (writeChunk_keepsLists s i _ _ _ msg total) fun r hr => ?_
    obtain ⟨t, sc⟩ := r
    cases sc with
    | error e => exact .pure hr
    | ok _ => exact (writeLoop_keepsLists i msg fuel t _ _ _).mono fun _ h => hr.trans h

theorem growInode_listsSame (s : Fs) (i fileSize position : Nat) :
    ListsSame s (growInode s i fileSize position) := by
  unfold growInode
  split
  · exact .modOdi s i _
  · exact .refl s

theorem writeFile_keepsLists (s : Fs) (ino nbytes position : Nat) (msg : List UInt8) :
    KeepsListsWith s (writeFile v env s ino nbytes position msg) := by
  unfold writeFile
  refine Ends.bind (P := fun _ => True) (fun _ _ => trivial) fun r _ => ?_
  match r with
  | none => exact .pure (ListsSame.refl s)
  | some i =>
    simp only
    split
    · exact .pure (ListsSame.refl s)
    refine Ends.bind (writeLoop_keepsLists i msg (nbytes + 1) s nbytes position 0) fun r hr => ?_
    obtain ⟨t, position', total, sc⟩ := r
    have ht := ListsSame.trans hr (growInode_listsSame t i (s.slot i).odi.size.toNat position')
    match sc with
    | .error e => exact .pure ht
    | .ok _ =>
      have htouch : ListsSame s (touchInode (growInode t i (s.slot i).odi.size.toNat position') i) :=
        ht.trans (.setSlot _ rfl rfl)
      refine Ends.bind (writeInode_keepsLists _ i) fun u hu => .pure ?_
      exact (htouch.trans (.markdirty _ i)).trans hu

theorem markAtime_listsSame (s : Fs) (i : Nat) : ListsSame s (markAtime s i) :=
  .setSlot s rfl rfl

theorem readFile_keepsLists (s : Fs) (ino nrbytes position room : Nat) :
    KeepsListsWith s (readFile v s ino nrbytes position room) := by
  unfold readFile
  refine Ends.bind (P := fun _ => True) (fun _ _ => trivial) fun r _ => ?_
  match r with
  | none => exact .pure (ListsSame.refl s)
  | some i =>
    refine Ends.bind (P := fun _ => True) (fun _ _ => trivial) fun r _ => ?_
    match r with
    | .error e => exact .pure (ListsSame.refl s)
    | .ok bytes => exact .pure (markAtime_listsSame s i)

/-! ## Directories -/

theorem direntEnter_keepsLists (s : Fs) (i : Nat) (name : List UInt8) (ino : Nat)
    (mode : UInt16) : KeepsListsWith s (direntEnter v env s i name ino mode) := by
  unfold direntEnter
  split
  · exact .ok (ListsSame.refl s)
  refine Ends.bind (P := fun _ => True) (fun _ _ => trivial) fun r _ => ?_
  match r with
  | none => exact .pure (ListsSame.refl s)
  | some (block, b, o) =>
    refine Ends.bind (P := ListsSame s) ?_ fun t ht => .pure ht
    refine Ends.bind (P := fun _ => True) (fun _ _ => trivial) fun b' _ => ?_
    refine (writeInode_keepsLists _ i).mono fun t ht => ListsSame.trans ?_ ht
    exact (ListsSame.writeBlk s block b').trans (.setSlot _ rfl rfl)

theorem direntDelete_keepsLists (s : Fs) (i : Nat) (name : List UInt8) :
    KeepsListsWith s (direntDelete v env s i name) := by
  unfold direntDelete
  split
  · exact .ok (ListsSame.refl s)
  refine Ends.bind (P := fun _ => True) (fun _ _ => trivial) fun r _ => ?_
  match r with
  | none => exact .pure (ListsSame.refl s)
  | some (block, b) =>
    refine Ends.bind (P := ListsSame s) ?_ fun t ht => .pure ht
    refine (writeInode_keepsLists _ i).mono fun t ht => ListsSame.trans ?_ ht
    exact (ListsSame.writeBlk s block b).trans (.setSlot _ rfl rfl)

end Cheviot.Ext2
