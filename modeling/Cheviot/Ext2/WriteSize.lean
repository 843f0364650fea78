import Cheviot.Ext2.Write
import Cheviot.Lib.Run

/-!
# The size that a write leaves behind

`write_file` sets the size after its loop, by how far `position` has come, whether or not
a chunk has been stored. A write that stores nothing past the end of a file makes it
longer all the same.

Everything turns on the first chunk. If it is stored, the size follows what has been; if it is
not, `position` is where the request began, and the size is right only if that is in the file or
at its end.

* `writeLoop_total` — `position` has come as far as there are bytes stored.
* `firstChunk_cases` — the three ways the first chunk can go.
* `writeFile_after` — the size and the bytes after a write, whatever its reply.
* `writeFile_size_iff` — when a write leaves the size that it should.
-/

namespace Cheviot.Ext2

open Cheviot.Bytes Cheviot.Run

/-- `total_xfered` after the loop: the bytes of the chunks that `write_chunk` has
stored. -/
def bytesStored (v : Volume) (env : Env) (s : Fs) (i nbytes position : Nat) (msg : List UInt8) :
    Nat :=
  if offT ((maxFilePos + 2 ^ 32 - nbytes) % 2 ^ 32) < position then 0
  else match writeLoop v env i msg (nbytes + 1) s nbytes position 0 with
    | .ok (_, _, total, _) => total
    | .error _ => 0

/-- After a write the size is the old one, if no chunk was stored, and else at least the
end of what was; if no chunk was stored the content is the old one, too. -/
def KeepsSize (v : Volume) (env : Env) (s : Fs) (n i nbytes position : Nat) (msg : List UInt8) :
    Prop :=
  ∃ s' r, writeFile v env s n nbytes position msg = .ok (s', r) ∧
    (nodeAt v s' n).size.toNat =
      (if bytesStored v env s i nbytes position msg = 0 then (nodeAt v s n).size.toNat
        else max (nodeAt v s n).size.toNat (position + bytesStored v env s i nbytes position msg)) ∧
    (bytesStored v env s i nbytes position msg = 0 →
      ∀ q, q < 2 ^ 32 → fileByte v s' n q = fileByte v s n q)

/-! ## The loop -/

section Loop

variable {v : Volume} {live : Nat → Prop} {n i : Nat} {s : Fs} {env : Env} {msg : List UInt8}

/-- `position` moves on with `total_xfered`. -/
theorem writeLoop_total (fuel : Nat) : ∀ (s : Fs) (nbytes pos total : Nat),
    Ends (writeLoop v env i msg fuel s nbytes pos total) fun r =>
      r.2.1 + total = pos + r.2.2.1 ∧ total ≤ r.2.2.1 := by
  induction fuel with
  | zero => exact fun _ _ _ _ => .error _
  | succ fuel ih =>
    intro s nbytes pos total
    unfold writeLoop
    split
    · exact .ok ⟨rfl, Nat.le_refl _⟩
    · dsimp only
      refine .bind (P := fun _ => True) (fun _ _ => trivial) fun r _ => ?_
      obtain ⟨s₁, sc⟩ := r
      cases sc with
      | error e => exact .pure ⟨rfl, Nat.le_refl _⟩
      | ok u =>
        refine (ih s₁ _ _ _).mono fun r hr => ?_
        omega

/-- The size of the first chunk. -/
def firstChunk (v : Volume) (nbytes position : Nat) : Nat :=
  min (v.blockSize - position % v.blockSize) nbytes

/-- There is a block for the first chunk: one that is mapped, or one from `new_block`. -/
def GetsBlock (v : Volume) (env : Env) (s : Fs) (i position : Nat) : Prop :=
  readMapEntry v s.blk (s.slot i).odi position ≠ noBlock ∨
    ∃ s' b, newBlock v env s i position = .ok (s', some b)

/-- The bytes around a position, once a short message has been put there. -/
def shortBytes (v : Volume) (s : Fs) (n i position chunk : Nat) (msg : List UInt8) :
    Nat → UInt8 :=
  overlay (if Cleared v s i position chunk then withBlock v (contentAt v s n) position zeroed
    else contentAt v s n) position msg

/-- The first chunk is not stored, for want of a block or of bytes in the message, or it is. -/
theorem firstChunk_cases (hv : Layout v) (env : Env) (hs : FilesOk v s live) (hn : live n)
    (hf : Found s n i) (msg : List UInt8) {nbytes pos : Nat} (h0 : nbytes ≠ 0)
    (hend : pos + nbytes ≤ maxFilePos) :
    ∃ s' pos' total sc new, writeLoop v env i msg (nbytes + 1) s nbytes pos 0 =
        .ok (s', pos', total, sc) ∧
      ContentStep v live n i s s' new ∧ pos' = pos + total ∧ pos' ≤ maxFilePos ∧
      (total = 0 ∧ ¬ GetsBlock v env s i pos ∧ new = contentAt v s n ∨
        total = 0 ∧ GetsBlock v env s i pos ∧ msg.length < firstChunk v nbytes pos ∧
          (∀ q, q < 2 ^ 32 → new q = shortBytes v s n i pos (firstChunk v nbytes pos) msg q) ∨
        total ≠ 0 ∧ GetsBlock v env s i pos ∧ firstChunk v nbytes pos ≤ msg.length) := by
  have hbs : 0 < v.blockSize := by
    have := Volume.blockSize_bounds hv.log_le
    omega
  have hmod := Nat.mod_lt pos hbs
  have hpos : pos < 2 ^ 32 := maxFilePos_lt (by omega)
  have hchunk : pos % v.blockSize + firstChunk v nbytes pos ≤ v.blockSize ∧
      0 < firstChunk v nbytes pos ∧ firstChunk v nbytes pos ≤ nbytes := by
    unfold firstChunk
    omega
  rw [writeLoop, if_neg h0]
  dsimp only
  rw [← firstChunk]
  generalize firstChunk v nbytes pos = chunk at hchunk
  obtain ⟨hfit, hchunk0, hle⟩ := hchunk
  obtain ⟨s₁, r, hrun, hr⟩ := chunkBuffer_bytes hv env hs hn hf chunk hpos
  cases r with
  | none =>
    obtain ⟨hnull, hnew, hstep⟩ := hr
    -- there is no block for it: `-EIO`
    have hwrite : writeChunk v env s i pos (pos % v.blockSize) chunk msg 0 =
        .ok (s₁, .error .eio) := bind_of_ok hrun _
    refine ⟨s₁, pos, 0, .error .eio, _, bind_of_ok hwrite _, hstep, rfl, by omega, .inl ⟨rfl, ?_, rfl⟩⟩
    intro hgets
    rcases hgets with hne | ⟨s', b, hb⟩
    · exact hne hnull
    · rw [hnew] at hb
      cases hb
  | some b =>
    obtain ⟨hne, hmap, hgot, hstep⟩ := hr
    have hgets : GetsBlock v env s i pos := by
      by_cases hnull : readMapEntry v s.blk (s.slot i).odi pos = noBlock
      · exact .inr ⟨s₁, b, hgot hnull⟩
      · exact .inl hnull
    have hf₁ := hstep.slot.found hf
    have hlen : (readmsg msg chunk 0).length = min chunk msg.length := by
      rw [readmsg, List.drop_zero, List.length_take]
    have hwrite : writeChunk v env s i pos (pos % v.blockSize) chunk msg 0 =
        .ok (s₁.writeBlk b (stBytes (s₁.blk b) (pos % v.blockSize) (readmsg msg chunk 0)),
          if (readmsg msg chunk 0).length = chunk then .ok () else .error .eio) :=
      bind_of_ok hrun _
    by_cases hshort : msg.length < chunk
    · -- what there is of the message is in the block
      obtain ⟨hput, -⟩ := contentStep_setBlk hv hstep.ok hn hf₁ hpos (by rw [hmap]; exact hne)
        (stBytes (s₁.blk b) (pos % v.blockSize) (readmsg msg chunk 0))
      rw [hmap] at hput
      have hmsg : readmsg msg chunk 0 = msg := by
        rw [readmsg, List.drop_zero, List.take_of_length_le (by omega)]
      rw [if_neg (by omega)] at hwrite
      refine ⟨_, pos, 0, .error .eio, _, bind_of_ok hwrite _, hstep.trans hput.writeBlk, rfl,
        by omega, .inr (.inl ⟨rfl, hgets, hshort, fun q hq => ?_⟩)⟩
      rw [withBlock_stBytes hbs (by rw [hlen]; omega) fun hdiv =>
        contentAt_mapped hf₁ hpos hq hmap hne hdiv, hmsg]
      refine overlay_congr fun _ => ?_
      rw [hstep.content n hn q hq, if_pos rfl]
    · -- the chunk is stored, and the loop goes on from there
      obtain ⟨s₂, sc, new, hchunk, hstep₂, -⟩ :=
        writeChunk_spec hv env hs hn hf hpos hfit msg 0
      have hsc : sc = .ok () := by
        rw [hwrite, if_pos (by omega)] at hchunk
        cases hchunk
        rfl
      rw [hsc] at hchunk
      obtain ⟨s₃, pos', total, sc', new', hloop, hstep₃, hlo, hhi, -⟩ :=
        writeLoop_spec hv env hn msg nbytes s₂ (nbytes - chunk) (pos + chunk) (0 + chunk)
          hstep₂.ok (hstep₂.slot.found hf) (by omega) (by omega)
      obtain ⟨htotal, hgrown⟩ := writeLoop_total nbytes s₂ (nbytes - chunk) (pos + chunk)
        (0 + chunk) _ hloop
      dsimp only at htotal hgrown
      exact ⟨s₃, pos', total, sc', new', (bind_of_ok hchunk _).trans hloop, hstep₂.trans hstep₃,
        by omega, by omega, .inr (.inr ⟨by omega, hgets, by omega⟩)⟩

/-- After a write the file is as large as before, or as far as `position` has come, and has
the bytes that the loop has left. -/
theorem writeFile_after (hv : Layout v) (hs : FilesOk v s live) (hn : live n) (hf : Found s n i)
    (hreg : sIsReg (s.slot i).odi.mode = true) {nbytes pos : Nat} (hend : pos + nbytes ≤ maxFilePos)
    {s₁ : Fs} {pos' total : Nat} {sc : Except Errno Unit} {new : Nat → UInt8}
    (hloop : writeLoop v env i msg (nbytes + 1) s nbytes pos 0 = .ok (s₁, pos', total, sc))
    (hstep : ContentStep v live n i s s₁ new) (hle : pos' ≤ maxFilePos) :
    ∃ s' r, writeFile v env s n nbytes pos msg = .ok (s', r) ∧
      (nodeAt v s' n).size.toNat = max (nodeAt v s n).size.toNat pos' ∧
      ∀ q, q < 2 ^ 32 → contentAt v s' n q = new q := by
  have hvol := hs.on_volume n hn
  have hf₁ := hstep.slot.found hf
  obtain ⟨odi, hblock, hodi, hgrow⟩ := growInode_eq (s := s₁) (i := i)
    (by rw [hstep.slot.mode, hreg]) (maxFilePos_lt hle)
  rw [hstep.slot.size, ← hf.nodeAt (v := v)] at hodi
  rw [hstep.slot.size] at hgrow
  -- the loop has left the bytes and `i_size` as it was; the size is set behind it
  have hnew : ∀ q, q < 2 ^ 32 → contentAt v s₁ n q = new q := by
    intro q hq
    rw [hstep.content n hn q hq, if_pos rfl]
  rw [writeFile_eq hf (hvol.lt hv) hvol hend hstep.slot hloop]
  cases sc with
  | error e =>
    refine ⟨_, _, rfl, ?_, fun q hq => ?_⟩
    · rw [hgrow, (found_setSlot v hf₁ (x := { s₁.slot i with odi := odi }) hf₁.ino).2, if_pos rfl]
      exact hodi
    · rw [← hnew q hq, hgrow, contentAt, contentAt, (found_setSlot v hf₁
        (x := { s₁.slot i with odi := odi }) hf₁.ino).2, if_pos rfl, hf₁.nodeAt]
      show byteAt v s₁.blk odi q = byteAt v s₁.blk (s₁.slot i).odi q
      unfold byteAt readMapEntry
      rw [hblock]
  | ok u =>
    -- the inode is stored, with the map it has
    obtain ⟨x, hx, hxblock, hxsize, hstored⟩ : ∃ x : Inode, x.ino = n ∧
        x.odi.block = (s₁.slot i).odi.block ∧
        x.odi.size.toNat = max (nodeAt v s n).size.toNat pos' ∧
        inodeMarkdirty (touchInode (growInode s₁ i (s.slot i).odi.size.toNat pos') i) i =
          s₁.setSlot i x := by
      refine ⟨{ s₁.slot i with
          odi := odi
          update := { (s₁.slot i).update with ctime := true, mtime := true }
          dirty := true }, hf₁.ino, hblock, hodi, ?_⟩
      rw [hgrow]
      simp [inodeMarkdirty, touchInode, Fs.setSlot]
    obtain ⟨-, hnode, hbytes⟩ := storeInode_files hv hstep.ok hn hf₁ hx hxblock env
    rw [hstored]
    refine ⟨_, _, rfl, ?_, fun q hq => ?_⟩
    · rw [hnode n hvol, if_pos rfl, ← hxsize]
      have htimed := congrArg OndiskInode.size (untimed_timed v env x)
      exact congrArg UInt32.toNat htimed
    · rw [hbytes n hn q hq, hnew q hq]

/-- A short message that makes no difference to a file: its bytes are those that are there
already, and where a whole block is cleared for it, so are the zeros behind it. -/
def SameBytes (v : Volume) (s : Fs) (n position chunk : Nat) (msg : List UInt8) : Prop :=
  ∀ q, position ≤ q → q < (nodeAt v s n).size.toNat →
    (q < position + msg.length → msg.getD (q - position) 0 = contentAt v s n q) ∧
    (position + msg.length ≤ q → q < position + chunk → chunk = v.blockSize →
      contentAt v s n q = 0)

theorem shortBytes_same (hbs : 0 < v.blockSize) (hf : Found s n i) {pos chunk : Nat}
    (hpos : pos < 2 ^ 32) (hfit : pos % v.blockSize + chunk ≤ v.blockSize) :
    (∀ q, q < (nodeAt v s n).size.toNat →
      shortBytes v s n i pos chunk msg q = contentAt v s n q) ↔
      SameBytes v s n pos chunk msg := by
  have hposdiv := Nat.div_add_mod pos v.blockSize
  unfold shortBytes
  constructor
  · -- what the message has, and behind it what is cleared
    intro h q hle hq
    have hsame := h q hq
    refine ⟨fun hin => ?_, fun hout hin hfull => ?_⟩
    · rwa [overlay, if_pos ⟨hle, hin⟩] at hsame
    · have hcleared : Cleared v s i pos chunk := .inr (.inl hfull)
      rw [overlay_of_out (.inr hout), if_pos hcleared, withBlock,
        if_pos ((same_block_iff hbs).mpr (by omega))] at hsame
      exact hsame.symm
  · intro h q hq
    by_cases hin : pos ≤ q ∧ q < pos + msg.length
    · rw [overlay, if_pos hin]
      exact (h q hin.1 hq).1 hin.2
    rw [overlay, if_neg hin]
    split
    next hclear =>
      unfold withBlock
      split
      next hdiv =>
        -- in the block that is cleared the file has zeros
        show 0 = contentAt v s n q
        symm
        rcases hclear with hnull | hfull | ⟨hoff, hpast⟩
        · have hcalc := calc_congr (v := v) (Nat.lt_trans hq (UInt32.toNat_lt _)) hpos hdiv
          have hread : readMapEntry v s.blk (s.slot i).odi q = noBlock := by
            rw [← hnull, readMapEntry, readMapEntry, hcalc]
          rw [contentAt, byteAt, hf.nodeAt, hread, if_pos rfl]
        · rw [same_block_iff hbs] at hdiv
          exact (h q (by omega) hq).2 (by omega) (by omega) hfull
        · rw [same_block_iff hbs] at hdiv
          rw [hf.nodeAt] at hq
          omega
      next => rfl
    next => rfl

theorem bytesStored_eq {nbytes pos : Nat} (hnb : nbytes < 2 ^ 32) (hend : pos + nbytes ≤ maxFilePos)
    {s₁ : Fs} {pos' total : Nat} {sc : Except Errno Unit}
    (hloop : writeLoop v env i msg (nbytes + 1) s nbytes pos 0 = .ok (s₁, pos', total, sc)) :
    bytesStored v env s i nbytes pos msg = total := by
  unfold bytesStored
  rw [if_neg (by rw [offT_limit hnb]; omega), hloop]

/-- A write leaves the size and the content that it should if and only if it is refused
for its position, or stores its first chunk, or begins in the file or at its end and stores
nothing that makes a difference. -/
theorem writeFile_size_iff (hv : Layout v) (hs : FilesOk v s live) (hn : live n)
    (hf : Found s n i) (hreg : sIsReg (s.slot i).odi.mode = true) (env : Env) (msg : List UInt8)
    {nbytes position : Nat} (hnb : nbytes < 2 ^ 32) :
    KeepsSize v env s n i nbytes position msg ↔
      maxFilePos < position + nbytes ∨
      (nbytes ≠ 0 ∧ GetsBlock v env s i position ∧ firstChunk v nbytes position ≤ msg.length) ∨
      position ≤ (nodeAt v s n).size.toNat ∧ (nbytes = 0 ∨ ¬ GetsBlock v env s i position ∨
        SameBytes v s n position (firstChunk v nbytes position) msg) := by
  have hbs : 0 < v.blockSize := by
    have := Volume.blockSize_bounds hv.log_le
    omega
  have hmod := Nat.mod_lt position hbs
  by_cases hbig : maxFilePos < position + nbytes
  · -- `-EFBIG`
    refine iff_of_true ⟨s, .error .efbig, ?_, ?_, fun _ _ _ => rfl⟩ (.inl hbig)
    · have hfind : findInode s n = .ok (some i) := by
        rw [findInode, bucketOf, if_pos ((hs.on_volume n hn).lt hv)]
        exact congrArg Except.ok hf
      unfold writeFile
      rw [bind_of_ok hfind]
      simp only
      rw [if_pos ((offT_limit hnb).mpr hbig)]
      rfl
    · have hnone : bytesStored v env s i nbytes position msg = 0 :=
        if_pos ((offT_limit hnb).mpr hbig)
      rw [if_pos hnone]
  rw [or_iff_right hbig]
  have hend : position + nbytes ≤ maxFilePos := Nat.le_of_not_lt hbig
  -- a write that has stored nothing, and left the bytes `new`
  have hnothing : ∀ {s₁ : Fs} {sc : Except Errno Unit} {new : Nat → UInt8},
      writeLoop v env i msg (nbytes + 1) s nbytes position 0 = .ok (s₁, position, 0, sc) →
      ContentStep v live n i s s₁ new →
      (KeepsSize v env s n i nbytes position msg ↔ position ≤ (nodeAt v s n).size.toNat ∧
        ∀ q, q < (nodeAt v s n).size.toNat → new q = contentAt v s n q) := by
    intro s₁ sc new hloop hstep
    obtain ⟨s', r, hrun, hsize, hbytes⟩ :=
      writeFile_after hv hs hn hf hreg hend hloop hstep (by omega)
    have hstored := bytesStored_eq hnb hend hloop
    unfold KeepsSize
    rw [hstored, if_pos rfl, hrun]
    constructor
    · intro hkeeps
      obtain ⟨s'', r'', heq, hkept, hsame⟩ := hkeeps
      cases heq
      refine ⟨by omega, fun q hq => ?_⟩
      have hbyte := hsame rfl q (Nat.lt_trans hq (UInt32.toNat_lt _))
      rw [fileByte, fileByte, hkept, if_pos hq, if_pos hq] at hbyte
      rw [← hbyte, hbytes q (Nat.lt_trans hq (UInt32.toNat_lt _))]
    · intro hquiet
      obtain ⟨hle, hsame⟩ := hquiet
      have hkept : (nodeAt v s' n).size.toNat = (nodeAt v s n).size.toNat := by omega
      refine ⟨s', r, rfl, hkept, fun _ q hq => ?_⟩
      rw [fileByte, fileByte, hkept]
      split
      next hin => rw [hbytes q hq, hsame q hin]
      next => rfl
  by_cases h0 : nbytes = 0
  · -- a write of nothing
    have hloop : writeLoop v env i msg (nbytes + 1) s nbytes position 0 =
        .ok (s, position, 0, .ok ()) := by rw [writeLoop, if_pos h0]
    rw [hnothing hloop (.refl hv hs), or_iff_right fun h => h.1 h0]
    exact ⟨fun h => ⟨h.1, .inl h0⟩, fun h => ⟨h.1, fun _ _ => rfl⟩⟩
  obtain ⟨s₁, pos', total, sc, new, hloop, hstep, hpos', hle, hcase⟩ :=
    firstChunk_cases hv env hs hn hf msg h0 hend
  rcases hcase with ⟨rfl, hnone, rfl⟩ | ⟨rfl, hgets, hshort, hnew⟩ | ⟨htotal, hgets, hlong⟩
  · rw [Nat.add_zero] at hpos'
    subst hpos'
    rw [hnothing hloop hstep, or_iff_right fun h => hnone h.2.1]
    exact ⟨fun h => ⟨h.1, .inr (.inl hnone)⟩, fun h => ⟨h.1, fun _ _ => rfl⟩⟩
  · rw [Nat.add_zero] at hpos'
    subst hpos'
    -- the first chunk has a block, but the message too few bytes for it
    have hchunk : pos' % v.blockSize + firstChunk v nbytes pos' ≤ v.blockSize := by
      unfold firstChunk
      omega
    have hsame : (∀ q, q < (nodeAt v s n).size.toNat → new q = contentAt v s n q) ↔
        SameBytes v s n pos' (firstChunk v nbytes pos') msg := by
      rw [← shortBytes_same hbs hf (maxFilePos_lt hle) hchunk]
      refine forall_congr' fun q => forall_congr' fun hq => ?_
      rw [hnew q (Nat.lt_trans hq (UInt32.toNat_lt _))]
    rw [hnothing hloop hstep, hsame, or_iff_right fun h => Nat.not_le_of_lt hshort h.2.2,
      or_iff_right h0, or_iff_right (not_not_intro hgets)]
  · obtain ⟨s', r, hrun, hsize, -⟩ := writeFile_after hv hs hn hf hreg hend hloop hstep hle
    have hstored := bytesStored_eq hnb hend hloop
    -- the first chunk is stored, and the size follows what has been
    refine iff_of_true ⟨s', r, hrun, ?_, fun h => ?_⟩ (.inl ⟨h0, hgets, hlong⟩)
    · rw [hstored, if_neg htotal, hsize, hpos']
    · rw [hstored] at h
      exact absurd h htotal

/-- `writeFile_size_iff` for five bytes over the end of the first block of an empty file. -/
theorem writeFile_size_iff_sample :
    KeepsSize sampleVolume sampleEnv sampleFileFs 12 0 5 1022 [1, 2, 3, 4, 5] := by
  have hnew : (newBlock sampleVolume sampleEnv sampleFileFs 0 1022).toOption.map
      (fun r => r.2.isSome) = some true := by decide
  have hgets : GetsBlock sampleVolume sampleEnv sampleFileFs 0 1022 := by
    refine .inr ?_
    generalize newBlock sampleVolume sampleEnv sampleFileFs 0 1022 = r at hnew
    match r, hnew with
    | .ok (s', some b), _ => exact ⟨s', b, rfl⟩
  exact (writeFile_size_iff sampleVolume_layout sampleFileFs_filesOk (.inr rfl) (i := 0) rfl
    (by decide) sampleEnv [1, 2, 3, 4, 5] (by decide)).mpr (.inr (.inl ⟨by decide, hgets, by decide⟩))

/-- A write of no bytes at position 5 makes an empty file 5 bytes long. -/
theorem writeFile_grows_empty : ¬ KeepsSize sampleVolume sampleEnv sampleFileFs 12 0 0 5 [] := by
  have hsize : (writeFile sampleVolume sampleEnv sampleFileFs 12 0 5 []).toOption.map
      (fun r => (nodeAt sampleVolume r.1 12).size.toNat) = some 5 := by decide
  have hstored : bytesStored sampleVolume sampleEnv sampleFileFs 0 0 5 [] = 0 := by decide
  have hold : (nodeAt sampleVolume sampleFileFs 12).size.toNat = 0 := by decide
  intro ⟨s', r, hrun, hkept, _⟩
  rw [hrun] at hsize
  rw [hstored, if_pos rfl, hold] at hkept
  have hfive : (nodeAt sampleVolume s' 12).size.toNat = 5 := Option.some.inj hsize
  omega

end Loop

end Cheviot.Ext2
