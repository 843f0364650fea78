import Cheviot.Ext2.Owned
import Cheviot.Ext2.CacheRun

/-!
# The owners of the blocks between requests

A request that takes no data is a sequence of calls, which `Acts.owned` covers. A write is
followed chunk by chunk, with the inode in its slot ahead of the one on the disk.

* `writeFile_step` — a write gives blocks to one file. When it fails it leaves them in the
  cache slot, and the disk behind.
* `handle_owned` — every request keeps the owners in order.
* `ownedRun_files` — so after any run of requests, every block in the map of an inode in
  use is a data block, marked as used, and at no other place of any map.
-/

namespace Cheviot.Ext2

open Cheviot.Bytes Cheviot.Forest Cheviot.Run

/-! ## Writes -/

section Write

variable {v : Volume} {env : Env} {live : Nat → Prop} {n i : Nat} {s s' s'' : Fs}

/-- The entries of slot `i` that had a block have it still. -/
def EntriesStay (i : Nat) (s s' : Fs) : Prop :=
  ∀ k, (s.slot i).odi.block k = 0 ∨ (s.slot i).odi.block k = (s'.slot i).odi.block k

theorem EntriesStay.of_slot (h : s'.slot = s.slot) : EntriesStay i s s' :=
  fun _ => .inr (by rw [h])

theorem EntriesStay.trans (h : EntriesStay i s s') (h' : EntriesStay i s' s'') :
    EntriesStay i s s'' := by
  intro k
  rcases h k with hnull | hsame
  · exact .inl hnull
  · rw [hsame]
    exact h' k

/-- Blocks added to a map are added to empty entries. -/
theorem MapAdds.entries {k₀ : Fin 15} {p₀ new : List Nat} (h : MapAdds v live n s s' k₀ p₀ new)
    (hn : live n) (hf : Found s n i) (hf' : Found s' n i) : EntriesStay i s s' := by
  intro k
  have hplace : Place (mapShape v) (n, k) [] := ⟨Nat.zero_le _, by simp⟩
  have hroot : ∀ {t : Fs}, Found t n i → blockAt v t n k [] = ((t.slot i).odi.block k).toNat := by
    intro t ht
    rw [← ht.nodeAt]
    rfl
  rcases h.place n hn k [] hplace with heq | ⟨-, hnull, -⟩
  · rw [hroot hf, hroot hf'] at heq
    exact .inr (UInt32.toNat_inj.mp heq.symm)
  · rw [hroot hf] at hnull
    exact .inl (UInt32.toNat_inj.mp hnull)

theorem newBlock_entries (hv : Layout v) (hs : FilesOk v s live) (hn : live n) (hf : Found s n i)
    {pos : Nat} (hpos : pos < 2 ^ 32)
    (hhole : readMapEntry v s.blk (s.slot i).odi pos = noBlock) :
    Ends (newBlock v env s i pos) fun r => EntriesStay i s r.1 := by
  obtain ⟨k₀, p₀, hcalc, hl⟩ := calc_place hv.log_le hpos
  rw [← hf.nodeAt, readMapEntry_eq hcalc] at hhole
  obtain ⟨s', r, hrun, hdone⟩ := newBlock_hole hv env hs hn hf hcalc (hl n) hhole
  rw [hrun]
  refine .ok ?_
  cases r with
  | none =>
    obtain ⟨new, hgrown, -⟩ := hdone
    exact hgrown.entries hn hf (hgrown.slot.found hf)
  | some b =>
    obtain ⟨-, -, new, hlinked, -⟩ := hdone
    exact hlinked.entries hn hf (hlinked.slot.found hf)

theorem writeChunk_entries (hv : Layout v) (hs : FilesOk v s live) (hn : live n)
    (hf : Found s n i) {pos : Nat} (hpos : pos < 2 ^ 32) (off chunk : Nat) (msg : List UInt8)
    (msgOff : Nat) :
    Ends (writeChunk v env s i pos off chunk msg msgOff) fun r => EntriesStay i s r.1 := by
  unfold writeChunk
  have hbuffer : Ends (chunkBuffer v env s i pos off chunk) fun r => EntriesStay i s r.1 := by
    unfold chunkBuffer
    dsimp only
    split
    next hhole => exact newBlock_entries hv hs hn hf hpos hhole
    split
    · exact .ok (.of_slot rfl)
    split
    · exact .ok (.of_slot rfl)
    · exact .ok (.of_slot rfl)
  refine hbuffer.bind fun r hr => ?_
  obtain ⟨t, buf⟩ := r
  cases buf with
  | none => exact .pure hr
  | some b =>
    refine .pure (hr.trans (.of_slot rfl))

theorem writeLoop_entries (hv : Layout v) (hn : live n) (msg : List UInt8) (fuel : Nat) :
    ∀ (s : Fs) (nbytes pos total : Nat), FilesOk v s live → Found s n i →
      pos + nbytes ≤ maxFilePos →
      Ends (writeLoop v env i msg fuel s nbytes pos total) fun r => EntriesStay i s r.1 := by
  induction fuel with
  | zero => exact fun _ _ _ _ _ _ _ => .error _
  | succ fuel ih =>
    intro s nbytes pos total hs hf hend
    unfold writeLoop
    split
    · exact .ok (.of_slot rfl)
    next h0 =>
      have hbs := Volume.blockSize_bounds hv.log_le
      have hmod := Nat.mod_lt pos (show 0 < v.blockSize by omega)
      have hpos : pos < 2 ^ 32 := maxFilePos_lt (by omega)
      dsimp only
      have hfit : pos % v.blockSize + min (v.blockSize - pos % v.blockSize) nbytes ≤
          v.blockSize := by omega
      obtain ⟨s₁, sc, new, hrun, hstep, -⟩ := writeChunk_spec hv env hs hn hf hpos hfit msg total
      have hfirst := writeChunk_entries hv hs hn hf hpos _ _ _ _ _ hrun
      rw [bind_of_ok hrun]
      cases sc with
      | error e => exact .pure hfirst
      | ok u =>
        refine (ih s₁ _ _ _ hstep.ok (hstep.slot.found hf) (by omega)).mono fun r hr => ?_
        exact EntriesStay.trans hfirst hr

/-- What a write to inode `n`, in cache slot `i`, is to all other inodes: nothing. The kind
of inode `n` stays. -/
structure FileStep (v : Volume) (live : Nat → Prop) (n i : Nat) (s s' : Fs) : Prop where
  lists : ListsSame s s'
  mode : (nodeAt v s' n).mode = (nodeAt v s n).mode
  files : FilesOk v s' live
  slot : ∀ j, j ≠ i → s'.slot j = s.slot j
  disk : ∀ m, OnVolume v m → m ≠ n → diskInode v s' m = diskInode v s m
  node : ∀ m, OnVolume v m → m ≠ n → nodeAt v s' m = nodeAt v s m
  bytes : ∀ m, live m → m ≠ n → ∀ q, q < 2 ^ 32 → contentAt v s' m q = contentAt v s m q

/-- The inode grown to the end of what has been written, as one that has another size. -/
theorem growInode_size {size position : Nat} (hsize : size = (s.slot i).odi.size.toNat)
    (hpos : position < 2 ^ 32) :
    ∃ z : UInt32, (s.slot i).odi.size.toNat ≤ z.toNat ∧
      growInode s i size position = s.modOdi i fun odi => { odi with size := z } := by
  unfold growInode
  split
  next hgrow =>
    refine ⟨UInt32.ofNat position, ?_, rfl⟩
    rw [UInt32.toNat_ofNat', Nat.mod_eq_of_lt hpos]
    omega
  next =>
    refine ⟨(s.slot i).odi.size, Nat.le_refl _, ?_⟩
    rw [Fs.modOdi, Fs.setSlot, Function.update_eq_self]

/-- The loop and what follows it up to the reply, with other sizes and flags in slot `i`. -/
theorem ContentStep.fileStep {new : Nat → UInt8} (h : ContentStep v live n i s s' new)
    (hv : Layout v) (hf : Found s n i) {x : Inode} (hino : x.ino = (s'.slot i).ino)
    (hcount : x.count = (s'.slot i).count) (hblock : x.odi.block = (s'.slot i).odi.block)
    (hmode : x.odi.mode = (s'.slot i).odi.mode) : FileStep v live n i s (s'.setSlot i x) := by
  have hf' := h.slot.found hf
  have hx : x.ino = n := hino.trans hf'.ino
  have hnode := (found_setSlot v hf' hx).2
  have hentry : ∀ m, (nodeAt v (s'.setSlot i x) m).block = (nodeAt v s' m).block := by
    intro m
    rw [hnode m]
    split
    next hmn => rw [hblock, hmn, hf'.nodeAt]
    next => rfl
  have hapart : Apart v s' (s'.setSlot i x) := .of_blk rfl rfl rfl
  refine ⟨?_, ?_, ?_, fun j hj => ?_, fun m hm _ => h.slot.diskInode hv hm,
    fun m hm hmn => ?_, fun m hm hmn q hq => ?_⟩
  · have hslot : ListsSame s s' := by
      refine ⟨h.slot.hash, h.slot.unused, fun j => ?_, fun j => ?_⟩
      all_goals
        by_cases hj : j = i
        · first | rw [hj, h.slot.ino] | rw [hj, h.slot.count]
        · rw [h.slot.slot j hj]
    exact hslot.trans (.setSlot s' hino hcount)
  · rw [hnode n, if_pos rfl, hmode, hf.nodeAt, h.slot.mode]
  · refine hapart.files h.ok h.ok.on_volume fun m hm k => .inr ⟨hm, ?_⟩
    rw [hentry m]
  · exact (Function.update_of_ne hj _ _).trans (h.slot.slot j hj)
  · rw [hnode m, if_neg hmn]
    exact h.slot.nodeAt_ne hv hf hm hmn
  · have hkeep := h.ok.map.keep_bytes hv.log_le hm (hentry m) hapart.blk hq
    have hcontent := h.content m hm q hq
    rw [if_neg hmn] at hcontent
    exact hkeep.2.trans hcontent

/-- The inode stored after that. -/
theorem FileStep.store (h : FileStep v live n i s s') (hv : Layout v) (hn : live n)
    (hf : Found s' n i) (env : Env) : FileStep v live n i s (wroteInode v env s' i) := by
  have hvol := h.files.on_volume n hn
  have hino := hf.ino
  obtain ⟨-, hnode⟩ := found_wroteInode hv hf hvol env
  obtain ⟨hfiles, -, hbytes⟩ := storeInode_files hv h.files hn hf (x := s'.slot i) hino rfl env
  have hself : s'.setSlot i (s'.slot i) = s' := by
    rw [Fs.setSlot, Function.update_eq_self]
  rw [hself] at hfiles hbytes
  refine ⟨h.lists.trans ⟨rfl, rfl, wroteInode_ino env i, wroteInode_count env i⟩, ?_, hfiles,
    fun j hj => ?_, fun m hm hmn => ?_, fun m hm hmn => ?_, fun m hm hmn q hq => ?_⟩
  · have hmode := congrArg OndiskInode.mode (untimed_timed v env (s'.slot i))
    dsimp only [OndiskInode.untimed] at hmode
    rw [hnode n hvol, if_pos rfl, hmode, ← hf.nodeAt (v := v), h.mode]
  · rw [wroteInode_slot, if_neg hj]
    exact h.slot j hj
  · rw [diskInode_wroteInode hv env (by rwa [hino]) hm, hino, if_neg hmn]
    exact h.disk m hm hmn
  · rw [hnode m hm, if_neg hmn]
    exact h.node m hm hmn
  · rw [hbytes m hm q hq]
    exact h.bytes m hm hmn q hq

/-- Where a write leaves the inode: on the disk, or in the cache only. -/
def WriteLeaves (v : Volume) (n i : Nat) (s s' : Fs) : Except Errno Nat → Prop
  | .ok _ => diskInode v s' n = (s'.slot i).odi
  | .error _ => diskInode v s' n = diskInode v s n ∧
    Behind (s.slot i).odi (s'.slot i).odi

theorem writeFile_step (hv : Layout v) (hs : FilesOk v s live) (hn : live n)
    (hreg : sIsReg (nodeAt v s n).mode = true) {nbytes position : Nat} (hnb : nbytes < 2 ^ 32)
    (msg : List UInt8) :
    Ends (writeFile v env s n nbytes position msg) fun r =>
      r.1 = s ∨ ∃ i, Found s n i ∧ FileStep v live n i s r.1 ∧ WriteLeaves v n i s r.1 r.2 := by
  have hvol := hs.on_volume n hn
  cases hfind : searchBucket s (n % inodeHashSize) n with
  | none =>
    -- no slot has the inode: nothing is written
    have hnone : findInode s n = .ok none := by
      rw [findInode, bucketOf, if_pos (hvol.lt hv)]
      exact congrArg Except.ok hfind
    unfold writeFile
    rw [bind_of_ok hnone]
    exact .pure (.inl rfl)
  | some i =>
    have hf : Found s n i := hfind
    have hsome : findInode s n = .ok (some i) := by
      rw [findInode, bucketOf, if_pos (hvol.lt hv)]
      exact congrArg Except.ok hfind
    by_cases hend : position + nbytes ≤ maxFilePos
    · obtain ⟨s₁, position', total, sc, new, hloop, hstep, -, hle, -⟩ :=
        writeLoop_spec hv env hn msg (nbytes + 1) s nbytes position 0 hs hf (by omega) hend
      -- the loop of the write, and the size it leaves
      have hentries := writeLoop_entries hv hn msg _ s nbytes position 0 hs hf hend _ hloop
      have hf₁ := hstep.slot.found hf
      have hsize : (s.slot i).odi.size.toNat = (s₁.slot i).odi.size.toNat := by
        rw [hstep.slot.size]
      obtain ⟨z, hz, hgrow⟩ := growInode_size hsize (maxFilePos_lt (Nat.le_trans hle hend))
      rw [writeFile_eq hf (hvol.lt hv) hvol hend hstep.slot hloop, hgrow]
      cases sc with
      | error e =>
        refine .ok (.inr ⟨i, hf, hstep.fileStep hv hf rfl rfl rfl rfl,
          hstep.slot.diskInode hv hvol, ?_⟩)
        -- after an error the inode is not written to the disk
        have hself : ((s₁.modOdi i fun odi => { odi with size := z }).slot i).odi =
            { (s₁.slot i).odi with size := z } := by simp [Fs.modOdi, Fs.setSlot]
        obtain ⟨block, blocks, hodi⟩ := hstep.slot.kept
        rw [hstep.slot.size] at hz
        rw [hf.nodeAt] at hreg
        rw [hself]
        refine ⟨⟨fun hd => ?_, fun hr => ?_, hentries, hz, fun hnot => ?_⟩, ?_⟩
        · rwa [hstep.slot.mode]
        · rwa [hstep.slot.mode]
        · rw [hstep.slot.mode, hreg] at hnot
          cases hnot
        · rw [hodi]
      | ok u =>
        refine .ok (.inr ⟨i, hf, ?_⟩)
        -- the two marks and the size are one change of the slot
        obtain ⟨x, hino, hcount, hblock, hmode, hset⟩ : ∃ x : Inode, x.ino = (s₁.slot i).ino ∧
            x.count = (s₁.slot i).count ∧ x.odi.block = (s₁.slot i).odi.block ∧
            x.odi.mode = (s₁.slot i).odi.mode ∧
            inodeMarkdirty (touchInode (s₁.modOdi i fun odi => { odi with size := z }) i) i =
              s₁.setSlot i x := by
          refine ⟨{ s₁.slot i with
            odi := { (s₁.slot i).odi with size := z }
            update := { (s₁.slot i).update with ctime := true, mtime := true }
            dirty := true }, rfl, rfl, rfl, rfl, ?_⟩
          simp [inodeMarkdirty, touchInode, Fs.modOdi, Fs.setSlot]
        rw [hset]
        have hx : x.ino = n := hino.trans hf₁.ino
        have hfile := hstep.fileStep hv hf hino hcount hblock hmode
        have hf₂ := (found_setSlot v hf₁ hx).1
        refine ⟨hfile.store hv hn hf₂ env, ?_⟩
        have hself : ((s₁.setSlot i x).slot i).ino = n := hf₂.ino
        show diskInode v (wroteInode v env (s₁.setSlot i x) i) n = _
        rw [diskInode_wroteInode hv env (by rwa [hself]) hvol, hself, if_pos rfl,
          wroteInode_slot, if_pos rfl]
    · unfold writeFile
      rw [bind_of_ok hsome]
      dsimp only
      rw [if_pos ((offT_limit hnb).mpr (Nat.lt_of_not_le hend))]
      exact .pure (.inl rfl)

theorem Shorter.trans {x y z : OndiskInode} (h : Shorter x y) (h' : Shorter y z) :
    Shorter x z := by
  refine ⟨fun hd => h'.dir (h.dir hd), fun hr => h'.reg (h.reg hr), fun k => ?_,
    Nat.le_trans h.size h'.size, fun hnot => ?_⟩
  · rcases h.block k with hnull | hsame
    · exact .inl hnull
    · rw [hsame]
      exact h'.block k
  · obtain ⟨hblock', hsize'⟩ := h'.exact hnot
    have hy : sIsReg y.mode = false := by
      by_contra hreg
      rw [h'.reg (by simpa using hreg)] at hnot
      cases hnot
    obtain ⟨hblock, hsize⟩ := h.exact hy
    exact ⟨hblock.trans hblock', hsize.trans hsize'⟩

theorem Behind.trans {x y z : OndiskInode} (h : Behind x y) (h' : Behind y z) : Behind x z :=
  ⟨h.toShorter.trans h'.toShorter, h.links.trans h'.links⟩

end Write

/-! ## One request -/

section Request

variable {v : Volume} {env : Env} {R : OndiskInode → OndiskInode → Prop} {s s' : Fs}
  {live arg : Nat → Prop} {n i : Nat}

/-- The message names no directory. -/
abbrev noArg : Nat → Prop := fun _ => False

/-- A write to a regular file, after which the disk is behind its slot as far as `R` allows. -/
theorem Owned.fileStep (h : Owned v R s [] live noArg) (hf : Found s n i) (hn : live n)
    (hlog : v.logBlockSize ≤ 5) (hreg : sIsReg (nodeAt v s n).mode = true)
    (hstep : FileStep v live n i s s') (hlag : R (diskInode v s' n) (s'.slot i).odi) :
    Owned v R s' [] live noArg := by
  refine ⟨⟨h.cache.toListsOk.congr hstep.lists.hash hstep.lists.unused hstep.lists.ino
      hstep.lists.count, fun j hj => ?_, fun j hj hne => ?_⟩, hstep.files, fun m hm hnot => ?_,
    fun m hm hd => ?_, fun m harg => absurd harg id⟩
  · rw [hstep.lists.ino j]
    exact h.cache.on_volume j hj
  · rw [hstep.lists.ino j] at hne ⊢
    by_cases hji : j = i
    · rw [hji, hf.ino]
      exact .inl hlag
    · have hjn : (s.slot j).ino ≠ n := by
        intro heq
        have hcached := (h.cache.search_iff (heq ▸ hne)).mp hf
        exact hji (h.cache.ino_inj j i hj hcached.1 (heq.trans hcached.2.symm) hne)
      rw [hstep.disk _ (h.cache.on_volume j hj hne) hjn, hstep.slot j hji]
      exact h.cache.synced j hj hne
  · rw [hstep.node m hm fun he => hnot (he ▸ hn)]
    exact h.rest m hm hnot
  · by_cases hmn : m = n
    · have hdir := hd.resolve_right id
      rw [hmn, hstep.mode] at hdir
      rw [not_reg_of_dir hdir] at hreg
      cases hreg
    · have hnode := hstep.node m (h.files.on_volume m hm) hmn
      rw [hnode] at hd
      exact ((h.dirs m hm hd).dirWith.congr hlog (by rw [hnode]) (hstep.bytes m hm hmn)
        fun _ _ hl => hl).dirOf

/-- A file that is as it was is kept. -/
theorem FileKept.refl {m : Nat} (hreg : sIsReg (nodeAt v s m).mode = true) : FileKept v s s m :=
  ⟨hreg, fun hlag => ⟨hlag, rfl, rfl, fun _ _ => rfl⟩⟩

/-- What is a regular file was one, with the same data. -/
def AllKept (v : Volume) (live : Nat → Prop) (s s' : Fs) : Prop :=
  ∀ m, live m → sIsReg (nodeAt v s' m).mode = true → FileKept v s s' m

/-- `read_file` sets a flag of the inode it has read. -/
theorem Owned.read (h : Owned v R s [] live noArg) (hlog : v.logBlockSize ≤ 5)
    {nrbytes position room : Nat} :
    Ends (readFile v s n nrbytes position room) fun r =>
      Owned v R r.1 [] live noArg ∧ AllKept v live s r.1 := by
  have hself : Owned v R s [] live noArg ∧ AllKept v live s s := ⟨h, fun _ _ hreg => .refl hreg⟩
  unfold readFile
  refine .bind (Ends.self _) fun r hfind => ?_
  match r with
  | none => exact .pure hself
  | some i =>
    refine .bind (P := fun _ => True) (fun _ _ => trivial) fun r _ => ?_
    match r with
    | .error e => exact .pure hself
    | .ok bytes =>
      refine .pure ?_
      -- only the flag of the access time is set
      have hodi : ∀ j, ((markAtime s i).slot j).odi = (s.slot j).odi := by
        intro j
        by_cases hj : j = i
        · simp [markAtime, Fs.setSlot, hj]
        · simp [markAtime, Fs.setSlot, hj]
      have hsame := markAtime_listsSame s i
      have hnode : ∀ m, nodeAt v (markAtime s i) m = nodeAt v s m := by
        intro m
        unfold nodeAt searchBucket
        simp only [hsame.hash, hsame.ino, hodi]
        rfl
      have hdirty : ∀ j, (s.slot j).dirty = true → ((markAtime s i).slot j).dirty = true := by
        intro j hd
        by_cases hj : j = i
        · simp [markAtime, Fs.setSlot, hj]
        · simpa [markAtime, Fs.setSlot, hj] using hd
      have hc : CacheOk v R (markAtime s i) [] :=
        h.cache.of_slots hsame.hash hsame.unused hsame.ino hsame.count (fun _ _ => rfl)
          fun j _ _ => .inl ⟨hodi j, hdirty j⟩
      refine ⟨h.step hlog hc (.of_blk rfl rfl rfl) (fun _ hm => hm) h.files.on_volume
        (fun m hm => .inl ⟨hm, ?_⟩) fun m hm hnot => ?_, fun m hm hreg => ?_⟩
      · rw [hnode m]
        exact .refl _
      · rw [hnode m]
        exact h.rest m hm hnot
      · rw [hnode m] at hreg
        refine .of_synced h.files hlog (.of_blk rfl rfl rfl) hm hreg fun hlag => ⟨?_, ?_⟩
        · exact hlag.of_slots hsame.ino hsame.count rfl fun j _ _ => .inl ⟨hodi j, hdirty j⟩
        · rw [hnode m]
          exact .refl _

/-- `ext2_chmod` and `ext2_chown`, also of an inode that is not in use. -/
theorem Owned.changeHandler (h : Owned v R s [] live noArg) (hv : Layout v) (hR : LagOk R)
    {f : OndiskInode → OndiskInode} (hn : OnVolume v n)
    (hf : ∀ x, (f x).size = x.size ∧ (f x).block = x.block ∧
      (f x).mode &&& 0xF000 = x.mode &&& 0xF000 ∧ (f x).linksCount = x.linksCount) :
    Ends (changeHandler (inodeCalls v env) s n f) fun r =>
      Owned v R r.1 [] live noArg ∧ AllKept v live s r.1 := by
  unfold Ext2.changeHandler
  refine .bind (Ends.self _) fun r hget => ?_
  obtain ⟨t, inode⟩ := r
  obtain ⟨i, rfl, hgot⟩ := getInode_ok h.cache.toListsOk (by decide) hn.ne_noEntry
    (Nat.lt_trans (hn.lt hv) (by decide)) hget
  have ht := h.got hv hR hn.ne_noEntry hgot
  obtain ⟨hsize, hblock, hkind, hlinks⟩ := hf (t.slot i).odi
  have hchange : Owned v R (changeInode t i f) [i] live noArg := by
    refine ht.change hv List.mem_cons_self rfl rfl rfl (fun _ hm => hm) (fun _ hm => .inl hm)
      (fun hlive => .inl ⟨hlive, .of_same hblock hsize (.inl hkind)⟩) fun hnot => ?_
    obtain ⟨hvol, hfound⟩ := ht.found List.mem_cons_self
    have hrest := ht.rest _ hvol hnot
    rw [hfound.nodeAt] at hrest
    exact hlinks.trans hrest
  refine .bind (Ends.self _) fun u hput => .pure ?_
  have hgave := putInode_ok hchange.cache.toListsOk List.mem_cons_self hput
  have hdone := hchange.put hv hR List.mem_cons_self hgave
  rw [List.erase_cons_head] at hdone
  refine ⟨hdone, fun m hm hreg => ?_⟩
  have hput' := hchange.put_kept hv hR List.mem_cons_self hgave hm hreg
  have hchange' : FileKept v t (changeInode t i f) m := by
    refine ht.change_kept hv.log_le List.mem_cons_self ?_ ?_ ?_ ?_ ?_ ?_ hm hput'.reg
    exacts [rfl, rfl, rfl, hsize, hblock, hkind]
  exact ((h.got_kept hv hR hn.ne_noEntry hgot hm hchange'.reg).trans hchange').trans hput'

/-- The directories among the inode numbers in a message. -/
def Request.dirs : Request → List Nat
  | .lookup dirIno _ | .create dirIno _ _ _ _ | .unlink dirIno _ | .rmdir dirIno _
  | .mkdir dirIno _ _ _ _ | .mknod dirIno _ _ _ _ | .readdir dirIno _ _ => [dirIno]
  | .rename srcDirIno _ dstDirIno _ => [srcDirIno, dstDirIno]
  | _ => []

/-- Inode `n` is in use. -/
def InodeInUse (v : Volume) (s : Fs) (n : Nat) : Prop :=
  OnVolume v n ∧ (nodeAt v s n).linksCount ≠ 0

/-- The message names inodes, as a directory only one in use, writes to a regular file in
use only, and not more bytes than a `size_t` can say. -/
structure ProperRequest (v : Volume) (s : Fs) (_ : Env) (req : Request) : Prop where
  inos : ∀ n ∈ req.inos, OnDevice v n
  dirs : ∀ n ∈ req.dirs, InodeInUse v s n ∧ sIsDir (nodeAt v s n).mode = true
  file : ∀ n nbytes position msg, req = .write n nbytes position msg →
    InodeInUse v s n ∧ sIsReg (nodeAt v s n).mode = true ∧ nbytes < 2 ^ 32

/-- A write that fails leaves the disk behind the cache as far as `R` allows. -/
def WriteLag (v : Volume) (R : OndiskInode → OndiskInode → Prop) (s : Fs) (env : Env) :
    Request → Prop
  | .write n nbytes position msg => ∀ s' e i, Found s n i →
    writeFile v env s n nbytes position msg = .ok (s', .error e) →
    R (diskInode v s n) (s'.slot i).odi
  | _ => True

theorem Owned.inodeInUse (h : Owned v R s [] live noArg) (hn : InodeInUse v s n) : live n := by
  by_contra hnot
  exact hn.2 (h.rest n hn.1 hnot)

/-- The directories of a message are in order at its start. -/
theorem Owned.withArgs (h : Owned v R s [] live noArg)
    (harg : ∀ n, arg n → InodeInUse v s n ∧ sIsDir (nodeAt v s n).mode = true) :
    Owned v R s [] live arg := by
  refine ⟨h.cache, h.files, h.rest, fun n hn hd => ?_, fun n hn => ?_⟩
  · refine h.dirs n hn (.inl ?_)
    rcases hd with hdir | hin
    · exact hdir
    · exact (harg n hin).2
  · obtain ⟨huse, hdir⟩ := harg n hn
    refine ⟨h.inodeInUse huse, fun hreg => ?_⟩
    rw [not_reg_of_dir hdir] at hreg
    cases hreg

theorem Owned.forget (h : Owned v R s [] live arg) : Owned v R s [] live noArg :=
  ⟨h.cache, h.files, h.rest, fun n hn hd => h.dirs n hn (hd.imp_right fun hf => hf.elim),
    fun _ hf => hf.elim⟩

theorem OnDevice.onVolume (h : OnDevice v n) (hv : Layout v) : OnVolume v n :=
  ⟨h.1, hv.inodesCount_eq ▸ h.2⟩

theorem inodesCount_lt (hv : Layout v) : v.inodesCount < 2 ^ 31 := by
  rw [hv.inodesCount_eq]
  exact hv.inos_lt

/-- A sequence of calls on directories in use. -/
theorem Owned.calls (h : Owned v R s [] live noArg) (hv : Layout v) (hR : LagOk R)
    (hbe : v.beCpu = false) (hsize : 4 ≤ v.sizeofIno) {ds : List Nat}
    {P : Option Nat → List UInt8 → Prop}
    (hds : ∀ n ∈ ds, InodeInUse v s n ∧ sIsDir (nodeAt v s n).mode = true)
    (hacts : Acts v env ⟨fun n => n ∈ ds, P⟩ (s, []) (s', [])) :
    ∃ live', Owned v R s' [] live' noArg ∧ (∀ Q : Nat → List UInt8 → Prop,
      (∀ m made name, P made name → Q m name) → DirsWith v s Q live noArg →
        DirsWith v s' Q live' noArg) ∧ KeepsFiles v ⟨fun n => n ∈ ds, P⟩ s live s' live' := by
  obtain ⟨live', hdone, -, hkeep, hfiles⟩ := hacts.owned (h.withArgs hds) (fun _ hi => nomatch hi) hv
    hR hbe hsize
  refine ⟨live', hdone.forget, fun Q hQ hdirs m hm hd => ?_, hfiles⟩
  have hargs : DirsWith v s Q live fun n => n ∈ ds := fun k hk hdir =>
    hdirs k hk (.inl (hdir.elim id fun hin => (hds k hin).2))
  exact hkeep Q hQ hargs m hm (.inl (hd.resolve_right id))

/-- One which enters names of which `P` holds. -/
theorem Owned.acts (h : Owned v R s [] live noArg) (hv : Layout v) (hR : LagOk R)
    (hbe : v.beCpu = false) (hsize : 4 ≤ v.sizeofIno) {ds : List Nat} {P : List UInt8 → Prop}
    (hds : ∀ n ∈ ds, InodeInUse v s n ∧ sIsDir (nodeAt v s n).mode = true)
    (hacts : Acts v env ⟨fun n => n ∈ ds, fun _ => P⟩ (s, []) (s', [])) :
    ∃ live', Owned v R s' [] live' noArg ∧ ∀ Q : Nat → List UInt8 → Prop,
      (∀ m name, P name → Q m name) → DirsWith v s Q live noArg → DirsWith v s' Q live' noArg := by
  obtain ⟨live', hdone, hkeep, -⟩ := h.calls hv hR hbe hsize hds hacts
  exact ⟨live', hdone, fun Q hQ => hkeep Q fun m _ => hQ m⟩

/-- A request that only takes directories, as a sequence of calls. -/
theorem handle_names (hl : ListsOk s []) (hv : Layout v) {req : Request}
    (hreq : ProperRequest v s env req) (hdirs : req.inos = req.dirs)
    (htransfer : req.isTransfer = false) {P : Option Nat → List UInt8 → Prop}
    (hnames : ∀ name ∈ req.newNames, P (req.made v env s) name) :
    Ends (handle (inodeCalls v env) v env s req) fun r =>
      Acts v env ⟨fun n => n ∈ req.dirs, P⟩ (s, []) (r.1, []) := by
  intro r hrun
  have harg : ArgsOk ⟨fun n => n ∈ req.dirs, P⟩ := fun n hn =>
    deviceArgs_ok (inodesCount_lt hv) n (hreq.inos n (hdirs ▸ hn))
  have hcalls := (inodeCalls_agrees v env).from (fun n hn => (harg n hn).1) hl
  obtain ⟨-, -, hacts⟩ := handle_follows hl hcalls harg (fun n hn => hdirs ▸ hn) hnames r hrun
  exact hacts htransfer

theorem handle_calls (hl : ListsOk s []) (hv : Layout v) {req : Request}
    (hreq : ProperRequest v s env req) (hdirs : req.inos = req.dirs)
    (htransfer : req.isTransfer = false) {P : List UInt8 → Prop}
    (hnames : ∀ name ∈ req.newNames, P name) :
    Ends (handle (inodeCalls v env) v env s req) fun r =>
      Acts v env ⟨fun n => n ∈ req.dirs, fun _ => P⟩ (s, []) (r.1, []) :=
  handle_names hl hv hreq hdirs htransfer hnames

theorem handle_acts (h : Owned v R s [] live noArg) (hv : Layout v) (hR : LagOk R)
    (hbe : v.beCpu = false) (hsize : 4 ≤ v.sizeofIno) {req : Request}
    (hreq : ProperRequest v s env req) (hdirs : req.inos = req.dirs)
    (htransfer : req.isTransfer = false) :
    Ends (handle (inodeCalls v env) v env s req) fun r =>
      ∃ live', Owned v R r.1 [] live' noArg := by
  intro r hrun
  have hacts := handle_calls h.cache.toListsOk hv hreq hdirs htransfer
    (P := fun _ => True) (fun _ _ => trivial) r hrun
  obtain ⟨live', hdone, -⟩ := h.acts hv hR hbe hsize hreq.dirs hacts
  exact ⟨live', hdone⟩

/-- A write to a regular file. -/
theorem Owned.write (h : Owned v R s [] live noArg) (hv : Layout v) (hR : LagOk R) (hn : live n)
    (hreg : sIsReg (nodeAt v s n).mode = true) {nbytes position : Nat} (hnb : nbytes < 2 ^ 32)
    {msg : List UInt8} (hlag : WriteLag v R s env (.write n nbytes position msg)) :
    Ends (writeFile v env s n nbytes position msg) fun r => Owned v R r.1 [] live noArg := by
  intro r hrun
  rcases writeFile_step hv h.files hn hreg hnb msg r hrun with hsame | ⟨i, hf, hstep, hleaves⟩
  · rw [hsame]
    exact h
  · obtain ⟨t, reply⟩ := r
    cases reply with
    | ok total =>
      have hstored : diskInode v t n = (t.slot i).odi := hleaves
      exact h.fileStep hf hn hv.log_le hreg hstep (hstored ▸ hR.refl _)
    | error e =>
      have hkept : diskInode v t n = diskInode v s n := hleaves.1
      exact h.fileStep hf hn hv.log_le hreg hstep (hkept ▸ hlag t e i hf hrun)

/-- Every request keeps the owners in order. -/
theorem handle_owned (h : Owned v R s [] live noArg) (hv : Layout v) (hR : LagOk R)
    (hbe : v.beCpu = false) (hsize : 4 ≤ v.sizeofIno) {req : Request}
    (hreq : ProperRequest v s env req) (hlag : WriteLag v R s env req) :
    Ends (handle (inodeCalls v env) v env s req) fun r =>
      ∃ live', Owned v R r.1 [] live' noArg := by
  have hacts := handle_acts h hv hR hbe hsize hreq
  cases req with
  | read n count offset room =>
    refine (h.read hv.log_le).bind fun r hr => ?_
    obtain ⟨t, nbytesRead⟩ := r
    cases nbytesRead <;> exact .pure ⟨live, hr.1⟩
  | write n count offset msg =>
    obtain ⟨huse, hreg, hnb⟩ := hreq.file n count offset msg rfl
    refine (h.write hv hR (h.inodeInUse huse) hreg hnb hlag).bind fun r hr => ?_
    obtain ⟨t, nbytesWritten⟩ := r
    cases nbytesWritten <;> exact .pure ⟨live, hr⟩
  | chmod n mode =>
    have hn := (hreq.inos n List.mem_cons_self).onVolume hv
    refine Ends.mono (h.changeHandler hv hR hn fun x => ?_) fun r hr => ⟨live, hr.1⟩
    exact ⟨rfl, rfl, chmodMode_kind x.mode mode, rfl⟩
  | chown n uid gid =>
    have hn := (hreq.inos n List.mem_cons_self).onVolume hv
    refine Ends.mono (h.changeHandler hv hR hn fun x => ?_) fun r hr => ⟨live, hr.1⟩
    exact ⟨rfl, rfl, rfl, rfl⟩
  | truncate n size => exact .ok ⟨live, h⟩
  | _ => exact hacts rfl rfl

end Request

/-! ## All requests -/

section Run

variable {v : Volume} {s s₀ : Fs}

/-- A volume to start from: the files of the inodes in use are in order, and what is a
directory names inodes in use only. -/
structure Consistent (v : Volume) (s : Fs) : Prop where
  files : FilesOk v s (InodeInUse v s)
  dirs : ∀ n, InodeInUse v s n → sIsDir (nodeAt v s n).mode = true → DirOf v s (InodeInUse v s) n

/-- A nonzero entry of the map of an inode in use is a data block of the volume, marked as
used, and no other entry of a map of such an inode. -/
def BlocksOwned (v : Volume) (s : Fs) : Prop :=
  ∀ n, InodeInUse v s n → ∀ k p, Place (mapShape v) (n, k) p → blockAt v s n k p ≠ 0 →
    DataBlock v (blockAt v s n k p) ∧ BlockUsed v s (blockAt v s n k p) ∧
    ∀ m, InodeInUse v s m → ∀ l q, Place (mapShape v) (m, l) q →
      blockAt v s m l q = blockAt v s n k p → m = n ∧ l = k ∧ q = p

theorem Behind.lagOk : LagOk Behind := ⟨fun _ => .of_untimed rfl, fun _ _ h => h⟩

/-- An empty cache is behind in nothing. -/
theorem initInodeCache_ok (v : Volume) (R : OndiskInode → OndiskInode → Prop) (s : Fs) :
    CacheOk v R (initInodeCache s) [] :=
  ⟨initInodeCache_lists s, fun _ _ h => absurd rfl h, fun _ _ h => absurd rfl h⟩

theorem Consistent.owned (h : Consistent v (initInodeCache s₀))
    (R : OndiskInode → OndiskInode → Prop) :
    Owned v R (initInodeCache s₀) [] (InodeInUse v (initInodeCache s₀)) noArg := by
  refine ⟨initInodeCache_ok v R s₀, h.files, fun n hn hnot => ?_, fun n hn hd => ?_,
    fun _ hf => hf.elim⟩
  · by_contra hlinks
    exact hnot ⟨hn, hlinks⟩
  · exact h.dirs n hn (hd.resolve_right id)

/-- A write that fails has put blocks into a regular file, of which the disk knows nothing. -/
theorem Owned.writeLag {live : Nat → Prop} (h : Owned v Behind s [] live noArg) (hv : Layout v)
    {env : Env} {req : Request} (hreq : ProperRequest v s env req) :
    WriteLag v Behind s env req := by
  cases req with
  | write n nbytes position msg =>
    intro s' e i hf hrun
    obtain ⟨huse, hreg, hnb⟩ := hreq.file n nbytes position msg rfl
    have hcached := (h.cache.search_iff huse.1.ne_noEntry).mp hf
    have hdisk : Behind (diskInode v s n) (s.slot i).odi := by
      have hsynced := h.cache.synced i hcached.1 (by rw [hcached.2]; exact huse.1.ne_noEntry)
      rw [hcached.2] at hsynced
      refine hsynced.resolve_right fun hheld => ?_
      have hcount := h.cache.count_eq i hcached.1
      rw [List.count_nil] at hcount
      omega
    rcases writeFile_step hv h.files (h.inodeInUse huse) hreg hnb msg _ hrun with
      hsame | ⟨j, hfj, -, hleaves⟩
    · dsimp only at hsame
      rw [hsame]
      exact hdisk
    · have hji : j = i := Option.some.inj (Eq.trans (Eq.symm hfj) hf)
      rw [hji] at hleaves
      exact hdisk.trans hleaves.2
  | _ => trivial

/-- After any run of requests the owners of the blocks are in order. -/
theorem Reached.owned (hv : Layout v) (hbe : v.beCpu = false) (hsize : 4 ≤ v.sizeofIno)
    (h₀ : Consistent v (initInodeCache s₀))
    (h : Reached v (ProperRequest v) (initInodeCache s₀) s) :
    ∃ live, Owned v Behind s [] live noArg := by
  induction h with
  | start => exact ⟨_, h₀.owned Behind⟩
  | step _ hok hrun ih =>
    obtain ⟨live, hs⟩ := ih
    exact handle_owned hs hv Behind.lagOk hbe hsize hok (hs.writeLag hv hok) _ hrun

/-- No block is in two places, and none in the map of an inode in use is free or a system
block, whatever has been asked for since the volume was mounted. -/
theorem ownedRun_files (hv : Layout v) (hbe : v.beCpu = false) (hsize : 4 ≤ v.sizeofIno)
    (h₀ : Consistent v (initInodeCache s₀))
    (h : Reached v (ProperRequest v) (initInodeCache s₀) s) : BlocksOwned v s := by
  obtain ⟨live, hs⟩ := h.owned hv hbe hsize h₀
  intro n hn k p hp hne
  have hlive := hs.inodeInUse hn
  refine ⟨hs.files.map.data n hlive k p hp hne, hs.files.used n hlive k p hp hne,
    fun m hm l q hq heq => ?_⟩
  have hne' : blockAt v s m l q ≠ 0 := by rwa [heq]
  obtain ⟨hr, rfl⟩ := hs.files.map.unshared (m, l) q (n, k) p (hs.inodeInUse hm) hlive hq hp heq hne'
  rw [Prod.mk.injEq] at hr
  exact ⟨hr.1, hr.2, rfl⟩

/-! ### A request to the small volume -/

theorem sampleFs_inodeInUse (n : Nat) : InodeInUse sampleVolume (initInodeCache sampleFs) n ↔ n = 2 := by
  have hlinks : ∀ m, m < 33 → 0 < m →
      (nodeAt sampleVolume (initInodeCache sampleFs) m).linksCount ≠ 0 → m = 2 := by
    decide +kernel
  constructor
  · intro ⟨hvol, hne⟩
    have hlast : n ≤ 32 := hvol.2
    exact hlinks n (by omega) hvol.1 hne
  · rintro rfl
    exact ⟨⟨by decide, by decide⟩, by decide⟩

theorem sampleFs_consistent : Consistent sampleVolume (initInodeCache sampleFs) := by
  have huse : InodeInUse sampleVolume (initInodeCache sampleFs) = (· = 2) :=
    funext fun n => propext (sampleFs_inodeInUse n)
  have hnode : nodeAt sampleVolume (initInodeCache sampleFs) 2 = nodeAt sampleVolume sampleDirFs 2 :=
    rfl
  have hbytes : contentAt sampleVolume (initInodeCache sampleFs) 2 =
      contentAt sampleVolume sampleDirFs 2 := by
    funext q
    rw [contentAt, contentAt, hnode]
    rfl
  refine ⟨?_, fun n hn _ => ?_⟩
  · rw [huse]
    have hblock : OneBlock sampleVolume (initInodeCache sampleFs) (· = 2) 2 9 := by
      rintro m rfl
      decide
    exact filesOk_single (fun m hm => hm ▸ ⟨by decide, by decide⟩)
      (sampleFs_blockConsistent.congr (fun _ => rfl) rfl fun _ _ => rfl) hblock
      ⟨by decide, by decide, by decide⟩ ⟨0, 8, by decide, by decide, by decide, by decide⟩
  · rw [(sampleFs_inodeInUse n).mp hn, huse]
    refine ⟨sampleRows, ?_, ?_⟩
    · rw [hbytes]
      exact sampleDirFs_good.tiled
    · rintro e ⟨k, -, he⟩ -
      have hroot : ∀ e ∈ sampleRows 0, e.ino = 2 := by decide
      exact hroot e he

/-- A node of any name in the root directory. -/
theorem sampleFs_mknod (name : List UInt8) :
    ProperRequest sampleVolume (initInodeCache sampleFs) sampleEnv
      (.mknod rootIno name 0x81A4 0 0) := by
  refine ⟨fun n hn => ?_, fun n hn => ?_, fun _ _ _ _ h => nomatch h⟩
  · rw [List.mem_singleton.mp hn]
    exact ⟨by decide, by decide⟩
  · rw [List.mem_singleton.mp hn]
    exact ⟨(sampleFs_inodeInUse 2).mpr rfl, by decide⟩

/-- Making a node on the small volume, after which the blocks are in order. -/
theorem ownedRun_files_sample :
    ∃ s reply, handle (inodeCalls sampleVolume sampleEnv) sampleVolume sampleEnv
        (initInodeCache sampleFs) (.mknod rootIno [0x61] 0x81A4 0 0) = .ok (s, reply) ∧
      BlocksOwned sampleVolume s := by
  have hok : (handle (inodeCalls sampleVolume sampleEnv) sampleVolume sampleEnv
      (initInodeCache sampleFs) (.mknod rootIno [0x61] 0x81A4 0 0)).isOk = true := by decide
  generalize hrun : handle (inodeCalls sampleVolume sampleEnv) sampleVolume sampleEnv
    (initInodeCache sampleFs) (.mknod rootIno [0x61] 0x81A4 0 0) = r at hok
  match r with
  | .error e => cases hok
  | .ok (s, reply) =>
    exact ⟨s, reply, rfl, ownedRun_files sampleVolume_layout rfl (by decide) sampleFs_consistent
      (.step .start (sampleFs_mknod [0x61]) hrun)⟩

end Run

end Cheviot.Ext2
