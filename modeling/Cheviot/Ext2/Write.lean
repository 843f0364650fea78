import Cheviot.Ext2.FileFrame
import Mathlib.Data.List.GetD

/-!
# Writing to a file: `write_file`

`write_file` splits a request into chunks that lie in one block each.
`write_chunk` gets the buffer of a chunk from `new_block` (a hole), cleared (a
block that is overwritten whole, or begins past the end of the file) or as it is,
and reads the message bytes into it.

* `writeChunk_spec` — a chunk overwrites its range of the file, given that the
  file is zero from there on past its size; whatever happens, no other file
  changes.
* `writeLoop_spec` — the chunks one after another.
* `writeFile_content` — a write that returns `nbytes` replaces that many bytes at
  its position, and the size is the old one or the end of the write.

Mirroring notes:
- `readmsg` returns the bytes of the message from an offset on, as many as asked
  for or as many as there are. An error return copies nothing, like a message
  that has ended.
- The loop of `write_file` runs on the number of bytes left, which every chunk
  makes smaller; `writeLoop` has one more unit of fuel than there are bytes.
-/

namespace Cheviot.Ext2

open Cheviot.Bytes

/-! ## The functions -/

/-- `readmsg (portid, msgid, ..., n, msg_off)`: the bytes it copies. -/
def readmsg (msg : List UInt8) (n msgOff : Nat) : List UInt8 := (msg.drop msgOff).take n

/-- `(off_t) x` for an unsigned 32-bit `x`. -/
def offT (x : Nat) : Int := if x < 2 ^ 31 then x else x - 2 ^ 32

/-- The buffer `write_chunk` reads the message into. -/
def chunkBuffer (v : Volume) (env : Env) (s : Fs) (i position off chunkSize : Nat) :
    Except Fault (Fs × Option Nat) :=
  let block := readMapEntry v s.blk (s.slot i).odi position
  if block = noBlock then newBlock v env s i position
  else if chunkSize = v.blockSize then .ok (s.setBlk block zeroed, some block)
  else if off = 0 ∧ (s.slot i).odi.size.toNat ≤ position then
    .ok (s.setBlk block zeroed, some block)
  else .ok (s, some block)

/-- `write_chunk`. -/
def writeChunk (v : Volume) (env : Env) (s : Fs) (i position off chunkSize : Nat)
    (msg : List UInt8) (msgOff : Nat) : Except Fault (Fs × Except Errno Unit) := do
  let (s, buf) ← chunkBuffer v env s i position off chunkSize
  match buf with
  | none => return (s, .error .eio)
  | some block =>
    let data := readmsg msg chunkSize msgOff
    let s := s.writeBlk block (stBytes (s.blk block) off data)
    return (s, if data.length = chunkSize then .ok () else .error .eio)

/-- The loop of `write_file`: the state, `position`, `total_xfered` and `sc` after it. -/
def writeLoop (v : Volume) (env : Env) (i : Nat) (msg : List UInt8) :
    Nat → Fs → Nat → Nat → Nat → Except Fault (Fs × Nat × Nat × Except Errno Unit)
  | 0, _, _, _, _ => .error .hang
  | fuel + 1, s, nbytes, position, total =>
    if nbytes = 0 then .ok (s, position, total, .ok ())
    else do
      let off := position % v.blockSize
      let chunkSize := min (v.blockSize - off) nbytes
      let (s, sc) ← writeChunk v env s i position off chunkSize msg total
      match sc with
      | .error e => return (s, position, total, .error e)
      | .ok _ =>
        writeLoop v env i msg fuel s (nbytes - chunkSize) (position + chunkSize)
          (total + chunkSize)

/-- The size `write_file` leaves behind, having reached `position`. -/
def growInode (s : Fs) (i fileSize position : Nat) : Fs :=
  if (sIsReg (s.slot i).odi.mode || sIsDir (s.slot i).odi.mode) = true ∧ fileSize < position then
    s.modOdi i fun odi => { odi with size := UInt32.ofNat position }
  else s

/-- `i_update |= CTIME | MTIME`. -/
def touchInode (s : Fs) (i : Nat) : Fs :=
  s.setSlot i { s.slot i with
    update := { (s.slot i).update with ctime := true, mtime := true } }

/-- `write_file`. -/
def writeFile (v : Volume) (env : Env) (s : Fs) (ino nbytes position : Nat) (msg : List UInt8) :
    Except Fault (Fs × Except Errno Nat) := do
  match ← findInode s ino with
  | none => return (s, .error .einval)
  | some i =>
    let fileSize := (s.slot i).odi.size.toNat
    if offT ((maxFilePos + 2 ^ 32 - nbytes) % 2 ^ 32) < position then return (s, .error .efbig)
    let (s, position, total, sc) ← writeLoop v env i msg (nbytes + 1) s nbytes position 0
    let s := growInode s i fileSize position
    match sc with
    | .error e => return (s, .error e)
    | .ok _ => return (← writeInode v env (inodeMarkdirty (touchInode s i) i) i, .ok total)

/-! ## One chunk -/

/-- `data` put over the bytes of a file from `pos` on. -/
def overlay (old : Nat → UInt8) (pos : Nat) (data : List UInt8) (q : Nat) : UInt8 :=
  if pos ≤ q ∧ q < pos + data.length then data.getD (q - pos) 0 else old q

theorem overlay_of_out {old : Nat → UInt8} {pos : Nat} {data : List UInt8} {q : Nat}
    (h : q < pos ∨ pos + data.length ≤ q) : overlay old pos data q = old q := by
  rw [overlay, if_neg (by omega)]

theorem overlay_congr {old old' : Nat → UInt8} {pos : Nat} {data : List UInt8} {q : Nat}
    (h : q < pos ∨ pos + data.length ≤ q → old' q = old q) :
    overlay old' pos data q = overlay old pos data q := by
  unfold overlay
  split
  · rfl
  next hnot => exact h (by omega)

/-- Two pieces, one right after the other, are one. -/
theorem overlay_overlay (old : Nat → UInt8) (pos : Nat) (data data' : List UInt8) (q : Nat) :
    overlay (overlay old pos data) (pos + data.length) data' q =
      overlay old pos (data ++ data') q := by
  unfold overlay
  rw [List.length_append]
  by_cases h1 : pos ≤ q ∧ q < pos + data.length
  · rw [if_neg (by omega), if_pos h1, if_pos (by omega), List.getD_append _ _ _ _ (by omega)]
  · by_cases h2 : pos + data.length ≤ q ∧ q < pos + data.length + data'.length
    · rw [if_pos h2, if_pos (by omega), List.getD_append_right _ _ _ _ (by omega)]
      congr 1
      omega
    · rw [if_neg h2, if_neg h1, if_neg (by omega)]

section Chunk

variable {v : Volume} {live : Nat → Prop} {n i : Nat} {s : Fs}

theorem maxFilePos_lt {q : Nat} (hq : q ≤ maxFilePos) : q < 2 ^ 32 :=
  Nat.lt_of_le_of_lt hq (by decide)

/-- From position `pos` on, inode `n` is zero past its size. -/
def ZeroFrom (v : Volume) (s : Fs) (n i pos : Nat) : Prop :=
  ∀ q, q ≤ maxFilePos → (s.slot i).odi.size.toNat ≤ q → pos ≤ q → contentAt v s n q = 0

theorem SlotStep.size {s' : Fs} (h : SlotStep v i s s') :
    (s'.slot i).odi.size = (s.slot i).odi.size := by
  obtain ⟨block, blocks, hodi⟩ := h.kept
  rw [hodi]

theorem SlotStep.mode {s' : Fs} (h : SlotStep v i s s') :
    (s'.slot i).odi.mode = (s.slot i).odi.mode := by
  obtain ⟨block, blocks, hodi⟩ := h.kept
  rw [hodi]

/-- The bytes in the block of a mapped position. -/
theorem contentAt_mapped (hf : Found s n i) {pos q b : Nat} (hpos : pos < 2 ^ 32)
    (hq : q < 2 ^ 32) (hb : readMapEntry v s.blk (s.slot i).odi pos = b) (hne : b ≠ noBlock)
    (hdiv : q / v.blockSize = pos / v.blockSize) :
    contentAt v s n q = s.blk b (q % v.blockSize) := by
  have hcalc := calc_congr (v := v) hq hpos hdiv
  have hread : readMapEntry v s.blk (s.slot i).odi q = b := by
    rw [← hb, readMapEntry, readMapEntry, hcalc]
  rw [contentAt, byteAt, hf.nodeAt, hread, if_neg hne]

/-- Whether two positions are in the same block, by the offset of one. -/
theorem same_block_iff {bs pos q : Nat} (hbs : 0 < bs) :
    q / bs = pos / bs ↔ pos - pos % bs ≤ q ∧ q < pos - pos % bs + bs := by
  have h1 := Nat.div_add_mod pos bs
  have h2 := Nat.mod_lt pos hbs
  rw [show pos - pos % bs = bs * (pos / bs) from by omega, Nat.div_eq_iff hbs]
  rw [Nat.mul_comm bs]
  omega

/-- Reading into the buffer of a chunk overwrites the range of the chunk. -/
theorem withBlock_stBytes (hbs : 0 < v.blockSize) {old : Nat → UInt8} {pos : Nat} {buf : Buf}
    {data : List UInt8} (hlen : pos % v.blockSize + data.length ≤ v.blockSize) {q : Nat}
    (hold : q / v.blockSize = pos / v.blockSize → old q = buf (q % v.blockSize)) :
    withBlock v old pos (stBytes buf (pos % v.blockSize) data) q = overlay old pos data q := by
  have hpos := Nat.div_add_mod pos v.blockSize
  have hq := Nat.div_add_mod q v.blockSize
  have hmod := Nat.mod_lt pos hbs
  unfold withBlock
  by_cases hdiv : q / v.blockSize = pos / v.blockSize
  · rw [if_pos hdiv]
    rw [hdiv] at hq
    by_cases hin : pos ≤ q ∧ q < pos + data.length
    · rw [stBytes_apply (by omega) (by omega), overlay, if_pos hin]
      congr 1
      omega
    · rw [stBytes_apply_ne (by omega), overlay, if_neg hin, hold hdiv]
  · rw [if_neg hdiv, overlay_of_out]
    rw [same_block_iff hbs] at hdiv
    omega

/-- The buffer of a chunk is not filled with what the block had: the block is new, or
cleared. -/
def Cleared (v : Volume) (s : Fs) (i position chunk : Nat) : Prop :=
  readMapEntry v s.blk (s.slot i).odi position = noBlock ∨ chunk = v.blockSize ∨
    position % v.blockSize = 0 ∧ (s.slot i).odi.size.toNat ≤ position

instance (v : Volume) (s : Fs) (i position chunk : Nat) : Decidable (Cleared v s i position chunk) :=
  inferInstanceAs (Decidable (_ ∨ _ ∨ _ ∧ _))

/-- The buffer is that of the block mapped at the position, with its bytes or zeros; there
is none only if a hole does not get a block. -/
theorem chunkBuffer_bytes (hv : Layout v) (env : Env) (hs : FilesOk v s live) (hn : live n)
    (hf : Found s n i) {pos : Nat} (chunk : Nat) (hpos : pos < 2 ^ 32) :
    ∃ s' r, chunkBuffer v env s i pos (pos % v.blockSize) chunk = .ok (s', r) ∧
      match r with
      | none => readMapEntry v s.blk (s.slot i).odi pos = noBlock ∧
          newBlock v env s i pos = .ok (s', none) ∧
          ContentStep v live n i s s' (contentAt v s n)
      | some b => b ≠ noBlock ∧ readMapEntry v s'.blk (s'.slot i).odi pos = b ∧
          (readMapEntry v s.blk (s.slot i).odi pos = noBlock →
            newBlock v env s i pos = .ok (s', some b)) ∧
          ContentStep v live n i s s' (if Cleared v s i pos chunk then
            withBlock v (contentAt v s n) pos zeroed else contentAt v s n) := by
  unfold chunkBuffer
  by_cases hnull : readMapEntry v s.blk (s.slot i).odi pos = noBlock
  · simp only [if_pos hnull]
    -- a hole gets a block, with zeros
    obtain ⟨s', r, hrun, hr⟩ := newBlock_spec hv env hs hn hf hpos
    cases r with
    | none => exact ⟨s', none, hrun, hnull, hrun, hr⟩
    | some b =>
      obtain ⟨hstep, hne, hmap, -⟩ := hr
      refine ⟨s', some b, hrun, hne, hmap, fun _ => hrun, ?_⟩
      rw [if_pos (.inl hnull)]
      exact hstep
  · simp only [if_neg hnull]
    -- a block that is there is cleared if all of it is written, or all of it is behind the end
    obtain ⟨hstep, hmap⟩ := contentStep_setBlk hv hs hn hf hpos hnull zeroed
    by_cases hfull : chunk = v.blockSize
    · rw [if_pos hfull]
      refine ⟨_, _, rfl, hnull, hmap, fun h => absurd h hnull, ?_⟩
      rw [if_pos (.inr (.inl hfull))]
      exact hstep
    · rw [if_neg hfull]
      by_cases hpast : pos % v.blockSize = 0 ∧ (s.slot i).odi.size.toNat ≤ pos
      · rw [if_pos hpast]
        refine ⟨_, _, rfl, hnull, hmap, fun h => absurd h hnull, ?_⟩
        rw [if_pos (.inr (.inr hpast))]
        exact hstep
      · rw [if_neg hpast]
        refine ⟨s, _, rfl, hnull, rfl, fun h => absurd h hnull, ?_⟩
        have hkept : ¬ Cleared v s i pos chunk := not_or_intro hnull (not_or_intro hfull hpast)
        rw [if_neg hkept]
        exact .refl hv hs

/-- The buffer is that of the block mapped at the position, and outside the chunk
the file reads as before. -/
theorem chunkBuffer_spec (hv : Layout v) (env : Env) (hs : FilesOk v s live) (hn : live n)
    (hf : Found s n i) {pos : Nat} (chunk : Nat) (hpos : pos < 2 ^ 32) :
    ∃ s' r new, chunkBuffer v env s i pos (pos % v.blockSize) chunk = .ok (s', r) ∧
      ContentStep v live n i s s' new ∧
      ∀ b, r = some b → b ≠ noBlock ∧ readMapEntry v s'.blk (s'.slot i).odi pos = b ∧
        (ZeroFrom v s n i pos → pos % v.blockSize + chunk ≤ v.blockSize → ∀ q, q ≤ maxFilePos →
          q < pos ∨ pos + chunk ≤ q → new q = contentAt v s n q) := by
  have hbs : 0 < v.blockSize := by
    have := Volume.blockSize_bounds hv.log_le
    omega
  have hposdiv := Nat.div_add_mod pos v.blockSize
  obtain ⟨s', r, hrun, hr⟩ := chunkBuffer_bytes hv env hs hn hf chunk hpos
  cases r with
  | none => exact ⟨s', none, _, hrun, hr.2.2, fun _ h => nomatch h⟩
  | some b =>
    obtain ⟨hne, hmap, -, hstep⟩ := hr
    refine ⟨s', some b, _, hrun, hstep, fun b' hb' => ?_⟩
    cases hb'
    refine ⟨hne, hmap, fun hzero hle q hq hout => ?_⟩
    by_cases hclear : Cleared v s i pos chunk
    · -- a cleared buffer is right when the block has nothing but the chunk
      rw [if_pos hclear, withBlock]
      split
      next hdiv =>
        rcases hclear with hnull | hfull | ⟨hoff, hpast⟩
        · have hcalc := calc_congr (v := v) (maxFilePos_lt hq) hpos hdiv
          have hread : readMapEntry v s.blk (s.slot i).odi q = noBlock := by
            rw [← hnull, readMapEntry, readMapEntry, hcalc]
          rw [contentAt, byteAt, hf.nodeAt, hread, if_pos rfl]
          rfl
        · rw [same_block_iff hbs] at hdiv
          omega
        · rw [same_block_iff hbs, hoff] at hdiv
          rw [hzero q hq (by omega) (by omega)]
          rfl
      next => rfl
    · rw [if_neg hclear]

/-- A chunk that is written overwrites its range; the other inodes do not change either way. -/
theorem writeChunk_spec (hv : Layout v) (env : Env) (hs : FilesOk v s live) (hn : live n)
    (hf : Found s n i) {pos chunk : Nat} (hpos : pos < 2 ^ 32)
    (hfit : pos % v.blockSize + chunk ≤ v.blockSize) (msg : List UInt8) (msgOff : Nat) :
    ∃ s' sc new, writeChunk v env s i pos (pos % v.blockSize) chunk msg msgOff = .ok (s', sc) ∧
      ContentStep v live n i s s' new ∧
      (sc = .ok () → (readmsg msg chunk msgOff).length = chunk ∧
        (ZeroFrom v s n i pos → ∀ q, q ≤ maxFilePos →
          new q = overlay (contentAt v s n) pos (readmsg msg chunk msgOff) q)) := by
  have hbs : 0 < v.blockSize := by
    have := Volume.blockSize_bounds hv.log_le
    omega
  obtain ⟨s₁, r, new, hrun, hstep, hr⟩ := chunkBuffer_spec hv env hs hn hf chunk hpos
  unfold writeChunk
  rw [bind_of_ok hrun]
  cases r with
  | none => exact ⟨s₁, .error .eio, new, rfl, hstep, fun h => nomatch h⟩
  | some b =>
    obtain ⟨hne, hmap, hkept⟩ := hr b rfl
    have hf₁ := hstep.slot.found hf
    obtain ⟨hwrite, -⟩ := contentStep_setBlk hv hstep.ok hn hf₁ hpos (by rw [hmap]; exact hne)
      (stBytes (s₁.blk b) (pos % v.blockSize) (readmsg msg chunk msgOff))
    rw [hmap] at hwrite
    refine ⟨_, _, _, rfl, hstep.trans hwrite.writeBlk, fun hsc => ?_⟩
    have hlen : (readmsg msg chunk msgOff).length = chunk := by
      by_contra hnot
      rw [if_neg hnot] at hsc
      cases hsc
    refine ⟨hlen, fun hzero q hq => ?_⟩
    rw [withBlock_stBytes hbs (by rw [hlen]; exact hfit) fun hdiv =>
      contentAt_mapped hf₁ hpos (maxFilePos_lt hq) hmap hne hdiv]
    refine overlay_congr fun hout => ?_
    rw [hstep.content n hn q (maxFilePos_lt hq), if_pos rfl]
    exact hkept hzero hfit q hq (by rwa [hlen] at hout)

/-- A chunk leaves zeros behind its range. -/
theorem ContentStep.zeroFrom {s' : Fs} {new : Nat → UInt8} (h : ContentStep v live n i s s' new)
    (hn : live n) {pos : Nat} {data : List UInt8} (hz : ZeroFrom v s n i pos)
    (hnew : ∀ q, q ≤ maxFilePos → new q = overlay (contentAt v s n) pos data q) :
    ZeroFrom v s' n i (pos + data.length) := by
  intro q hq hsize hle
  rw [h.slot.size] at hsize
  rw [h.content n hn q (maxFilePos_lt hq), if_pos rfl, hnew q hq, overlay_of_out (.inr hle)]
  exact hz q hq hsize (by omega)

/-! ## All chunks -/

/-- The loop ends, has reached `position`, and touched no other inode; if no chunk
failed, it has overwritten the whole range. -/
theorem writeLoop_spec (hv : Layout v) (env : Env) (hn : live n) (msg : List UInt8)
    (fuel : Nat) : ∀ (s : Fs) (nbytes pos total : Nat), FilesOk v s live → Found s n i →
      nbytes < fuel → pos + nbytes ≤ maxFilePos →
      ∃ s' pos' total' sc new, writeLoop v env i msg fuel s nbytes pos total =
          .ok (s', pos', total', sc) ∧
        ContentStep v live n i s s' new ∧ pos ≤ pos' ∧ pos' ≤ pos + nbytes ∧
        (sc = .ok () → pos' = pos + nbytes ∧ total' = total + nbytes ∧
          (readmsg msg nbytes total).length = nbytes ∧
          (ZeroFrom v s n i pos → ∀ q, q ≤ maxFilePos →
            new q = overlay (contentAt v s n) pos (readmsg msg nbytes total) q)) := by
  have hbs : 0 < v.blockSize := by
    have := Volume.blockSize_bounds hv.log_le
    omega
  -- by the chunks; a chunk that fails ends the loop where it is
  induction fuel with
  | zero => exact fun _ _ _ _ _ _ h => absurd h (Nat.not_lt_zero _)
  | succ fuel ih =>
    intro s nbytes pos total hs hf hfuel hend
    unfold writeLoop
    by_cases h0 : nbytes = 0
    · subst h0
      rw [if_pos rfl]
      refine ⟨s, pos, total, .ok (), contentAt v s n, rfl, .refl hv hs,
        Nat.le_refl _, Nat.le_refl _, fun _ => ⟨rfl, rfl, ?_, fun _ q _ => ?_⟩⟩
      · simp [readmsg]
      · rw [overlay_of_out (by simp [readmsg]; omega)]
    · rw [if_neg h0]
      have hmod := Nat.mod_lt pos hbs
      have hchunk : pos % v.blockSize + min (v.blockSize - pos % v.blockSize) nbytes ≤ v.blockSize ∧
          0 < min (v.blockSize - pos % v.blockSize) nbytes ∧
          min (v.blockSize - pos % v.blockSize) nbytes ≤ nbytes := by omega
      simp only
      generalize min (v.blockSize - pos % v.blockSize) nbytes = chunk at hchunk
      obtain ⟨hfit, hpos, hle⟩ := hchunk
      obtain ⟨s₁, sc, new, hrun, hstep, hok⟩ :=
        writeChunk_spec hv env hs hn hf (maxFilePos_lt (by omega)) hfit msg total
      rw [bind_of_ok hrun]
      cases sc with
      | error e =>
        exact ⟨s₁, pos, total, .error e, new, rfl, hstep, Nat.le_refl _, by omega, fun h => nomatch h⟩
      | ok u =>
        obtain ⟨hlen, hnew⟩ := hok rfl
        obtain ⟨s₂, pos', total', sc, new', hrun', hstep', hlo, hhi, hdone⟩ :=
          ih s₁ (nbytes - chunk) (pos + chunk) (total + chunk) hstep.ok (hstep.slot.found hf)
            (by omega) (by omega)
        refine ⟨s₂, pos', total', sc, new', hrun', hstep.trans hstep', by omega, by omega,
          fun hsc => ?_⟩
        obtain ⟨hpos', htotal', hlen', hnew'⟩ := hdone hsc
        -- the message bytes of this chunk and of the rest
        have hsplit : readmsg msg nbytes total =
            readmsg msg chunk total ++ readmsg msg (nbytes - chunk) (total + chunk) := by
          unfold readmsg
          conv_lhs => rw [show nbytes = chunk + (nbytes - chunk) from by omega, List.take_add]
          rw [List.drop_drop]
        refine ⟨by omega, by omega, ?_, fun hzero q hq => ?_⟩
        · rw [hsplit, List.length_append, hlen, hlen']
          omega
        · -- the bytes up to the next chunk are those of this one
          have hzero₁ := hstep.zeroFrom hn hzero (hnew hzero)
          rw [hlen] at hzero₁
          rw [hnew' hzero₁ q hq, hsplit, ← overlay_overlay, hlen]
          refine overlay_congr fun _ => ?_
          rw [hstep.content n hn q (maxFilePos_lt hq), if_pos rfl, hnew hzero q hq]

/-! ## Writing the inode back -/

theorem found_setSlot (v : Volume) (hf : Found s n i) {x : Inode} (hx : x.ino = n) :
    Found (s.setSlot i x) n i ∧ ∀ m,
      nodeAt v (s.setSlot i x) m = if m = n then x.odi else nodeAt v s m := by
  have hino : ∀ j, ((s.setSlot i x).slot j).ino = (s.slot j).ino := by
    intro j
    by_cases hj : j = i
    · subst hj
      simp [Fs.setSlot, hx, hf.ino]
    · simp [Fs.setSlot, hj]
  have hsearch : ∀ k m, searchBucket (s.setSlot i x) k m = searchBucket s k m := by
    intro k m
    simp only [searchBucket, hino]
    rfl
  refine ⟨by rw [Found, hsearch]; exact hf, fun m => ?_⟩
  unfold nodeAt
  rw [hsearch]
  by_cases hm : m = n
  · subst hm
    rw [if_pos rfl, show searchBucket s _ _ = some i from hf]
    simp [Fs.setSlot]
  · rw [if_neg hm]
    cases hs : searchBucket s (m % inodeHashSize) m with
    | none => rfl
    | some j =>
      have hj : j ≠ i := by
        rintro rfl
        exact hm ((Found.ino hs).symm.trans hf.ino)
      simp [Fs.setSlot, hj]

/-- `write_inode` shows in the inode it writes, and there only in the times. -/
theorem found_wroteInode (hv : Layout v) (hf : Found s n i) (hn : OnVolume v n) (env : Env) :
    Found (wroteInode v env s i) n i ∧ ∀ m, OnVolume v m →
      nodeAt v (wroteInode v env s i) m =
        if m = n then (timed v env (s.slot i)).odi else nodeAt v s m := by
  have hsearch : ∀ k m, searchBucket (wroteInode v env s i) k m = searchBucket s k m := by
    intro k m
    simp only [searchBucket, wroteInode_ino]
    rfl
  refine ⟨by rw [Found, hsearch]; exact hf, fun m hm => ?_⟩
  unfold nodeAt
  rw [hsearch]
  by_cases hmn : m = n
  · subst hmn
    rw [if_pos rfl, show searchBucket s _ _ = some i from hf]
    simp [wroteInode]
  · rw [if_neg hmn]
    cases hs : searchBucket s (m % inodeHashSize) m with
    | none =>
      simp only
      rw [diskInode_wroteInode hv env (by rw [hf.ino]; exact hn) hm, hf.ino, if_neg hmn]
    | some j =>
      have hj : j ≠ i := by
        rintro rfl
        exact hmn ((Found.ino hs).symm.trans hf.ino)
      simp [wroteInode, hj]

/-- Storing an inode whose block map is as before is nothing to the files. -/
theorem storeInode_files (hv : Layout v) (hs : FilesOk v s live) (hn : live n) (hf : Found s n i)
    {x : Inode} (hx : x.ino = n) (hblock : x.odi.block = (s.slot i).odi.block) (env : Env) :
    FilesOk v (wroteInode v env (s.setSlot i x) i) live ∧
    (∀ m, OnVolume v m → nodeAt v (wroteInode v env (s.setSlot i x) i) m =
      if m = n then (timed v env x).odi else nodeAt v s m) ∧
    ∀ m, live m → ∀ q, q < 2 ^ 32 →
      contentAt v (wroteInode v env (s.setSlot i x) i) m q = contentAt v s m q := by
  have hvol := hs.on_volume n hn
  obtain ⟨hf₁, hnode₁⟩ := found_setSlot v hf hx
  obtain ⟨-, hnode₂⟩ := found_wroteInode hv hf₁ hvol env
  have hslot : (s.setSlot i x).slot i = x := by simp [Fs.setSlot]
  have hnode : ∀ m, OnVolume v m → nodeAt v (wroteInode v env (s.setSlot i x) i) m =
      if m = n then (timed v env x).odi else nodeAt v s m := by
    intro m hm
    rw [hnode₂ m hm, hslot, hnode₁]
    by_cases hmn : m = n
    · rw [if_pos hmn, if_pos hmn]
    · rw [if_neg hmn, if_neg hmn, if_neg hmn]
  have hblk : ∀ b, b ≠ v.inodeTableBlock n →
      (wroteInode v env (s.setSlot i x) i).blk b = s.blk b := by
    intro b hb
    rw [wroteInode_blk_ne (by rw [hslot, hx]; exact hb)]
    rfl
  -- the inode table has no data blocks, so no file is touched
  have hdata : ∀ b, DataBlock v b → (wroteInode v env (s.setSlot i x) i).blk b = s.blk b :=
    fun b hb => hblk b fun he => hb.2.2 (he ▸ inodeTableBlock_system hv hvol)
  have hkept : BlocksKept v s (wroteInode v env (s.setSlot i x) i) :=
    ⟨rfl, rfl, fun _ hg => hblk _ (inodeTableBlock_ne_block_bitmap hv hvol hg)⟩
  have htimed : (timed v env x).odi.block = (s.slot i).odi.block := by
    have := congrArg OndiskInode.block (untimed_timed v env x)
    exact this.trans hblock
  have hroot : ∀ r : Nat × Fin 15, live r.1 →
      mapRoot (nodeAt v (wroteInode v env (s.setSlot i x) i)) r = mapRoot (nodeAt v s) r := by
    intro r hr
    rw [mapRoot, mapRoot, hnode r.1 (hs.on_volume r.1 hr)]
    by_cases hrn : r.1 = n
    · rw [if_pos hrn, htimed, hrn, hf.nodeAt]
    · rw [if_neg hrn]
  obtain ⟨hok, hat⟩ := hs.frame hroot
    (hkept.consistent hs.blocks)
    (fun m hm k p hp hne => hdata _ (hs.map.data m hm k p hp hne))
    fun m hm k p hp hne => hkept.used (hs.used m hm k p hp hne)
  refine ⟨hok, hnode, fun m hm q hq => ?_⟩
  obtain ⟨k, p, hcalc, hl⟩ := calc_place hv.log_le hq
  rw [contentAt_eq hcalc, contentAt_eq hcalc, hat m hm k p (hl m).1]
  by_cases hnull : blockAt v s m k p = 0
  · rw [if_pos hnull, if_pos hnull]
  · have hd : DataBlock v (blockAt v s m k p) := hs.map.data m hm k p (hl m).1 hnull
    rw [if_neg hnull, if_neg hnull, hdata _ hd]

end Chunk

/-! ## `write_file` -/

section File

variable {v : Volume} {live : Nat → Prop} {n i : Nat} {s : Fs}

/-- The content of a file: the bytes below its size, and zeros from there on. -/
def fileByte (v : Volume) (s : Fs) (n q : Nat) : UInt8 :=
  if q < (nodeAt v s n).size.toNat then contentAt v s n q else 0

/-- Mapped bytes past the end of a file are zero. -/
def TailZero (v : Volume) (s : Fs) (live : Nat → Prop) : Prop :=
  ∀ n, live n → ∀ q, q ≤ maxFilePos → (nodeAt v s n).size.toNat ≤ q → contentAt v s n q = 0

theorem TailZero.fileByte (hz : TailZero v s live) (hn : live n) {q : Nat}
    (hq : q ≤ maxFilePos) : fileByte v s n q = contentAt v s n q := by
  unfold Ext2.fileByte
  split
  · rfl
  next hnot => rw [hz n hn q hq (by omega)]

/-- The bound on the position is one on the end of the request. -/
theorem offT_limit {nbytes position : Nat} (hnb : nbytes < 2 ^ 32) :
    offT ((maxFilePos + 2 ^ 32 - nbytes) % 2 ^ 32) < position ↔
      maxFilePos < position + nbytes := by
  have hmax : maxFilePos = 2147483647 := rfl
  unfold offT
  split <;> omega

/-- `write_file`, as one equation, when the chunks have been written. -/
theorem writeFile_eq (hf : Found s n i) (hlt : n < 2 ^ 31) (hvol : OnVolume v n) {env : Env}
    {nbytes position : Nat} {msg : List UInt8} (hend : position + nbytes ≤ maxFilePos)
    {s₁ : Fs} {position' total : Nat} {sc : Except Errno Unit}
    (hslot : SlotStep v i s s₁)
    (hrun : writeLoop v env i msg (nbytes + 1) s nbytes position 0 =
      .ok (s₁, position', total, sc)) :
    writeFile v env s n nbytes position msg = match sc with
      | .error e => .ok (growInode s₁ i (s.slot i).odi.size.toNat position', .error e)
      | .ok _ => .ok (wroteInode v env (inodeMarkdirty (touchInode (growInode s₁ i
          (s.slot i).odi.size.toNat position') i) i) i, .ok total) := by
  have hfind : findInode s n = .ok (some i) := by
    rw [findInode, bucketOf, if_pos hlt]
    exact congrArg Except.ok hf
  unfold writeFile
  rw [bind_of_ok hfind]
  simp only
  rw [if_neg (by rw [offT_limit (by unfold maxFilePos at hend; omega)]; omega), bind_of_ok hrun]
  cases sc with
  | error e => rfl
  | ok u =>
    simp only
    rw [bind_of_ok (writeInode_eq ?_)]
    · rfl
    · have hino : (s₁.slot i).ino = n := hslot.ino.trans hf.ino
      have : ((inodeMarkdirty (touchInode (growInode s₁ i (s.slot i).odi.size.toNat position') i)
          i).slot i).ino = n := by
        unfold growInode
        split <;> simp [inodeMarkdirty, touchInode, Fs.modOdi, Fs.setSlot, hino]
      rw [this]
      exact hvol

/-- The inode of a file that has been written up to a position is as large as that, or as
it was. -/
theorem growInode_eq (hreg : sIsReg (s.slot i).odi.mode = true) {position : Nat}
    (hpos : position < 2 ^ 32) :
    ∃ odi : OndiskInode, odi.block = (s.slot i).odi.block ∧
      odi.size.toNat = max (s.slot i).odi.size.toNat position ∧
      growInode s i (s.slot i).odi.size.toNat position =
        s.setSlot i { s.slot i with odi := odi } := by
  unfold growInode
  rw [hreg]
  by_cases hgrow : (s.slot i).odi.size.toNat < position
  · rw [if_pos ⟨rfl, hgrow⟩]
    refine ⟨{ (s.slot i).odi with size := UInt32.ofNat position }, rfl, ?_, rfl⟩
    rw [UInt32.toNat_ofNat', Nat.mod_eq_of_lt hpos]
    omega
  · rw [if_neg fun h => hgrow h.2]
    refine ⟨(s.slot i).odi, rfl, by omega, ?_⟩
    rw [Fs.setSlot, Function.update_eq_self]

/-- A `write_file` that returns `nbytes` has replaced the bytes at its position
by those of the message and grown the file up to its end; the other files are as
they were, and all is in order for the next request. -/
theorem writeFile_content (hv : Layout v) (hs : FilesOk v s live) (hz : TailZero v s live)
    (hn : live n) (hf : Found s n i) (hreg : sIsReg (s.slot i).odi.mode = true) (env : Env)
    (msg : List UInt8) {nbytes position : Nat} (hend : position + nbytes ≤ maxFilePos) {s' : Fs}
    (hrun : writeFile v env s n nbytes position msg = .ok (s', .ok nbytes)) :
    nbytes ≤ msg.length ∧
    (∀ q, q ≤ maxFilePos →
      fileByte v s' n q = overlay (fileByte v s n) position (msg.take nbytes) q) ∧
    (nodeAt v s' n).size.toNat = max (nodeAt v s n).size.toNat (position + nbytes) ∧
    (∀ m, live m → m ≠ n → nodeAt v s' m = nodeAt v s m ∧
      ∀ q, q ≤ maxFilePos → fileByte v s' m q = fileByte v s m q) ∧
    FilesOk v s' live ∧ TailZero v s' live := by
  have hvol := hs.on_volume n hn
  have hmax : maxFilePos = 2147483647 := rfl
  -- behind the end of the file there are zeros, where the write has gaps
  have hzero : ZeroFrom v s n i position := fun q hq hsize _ =>
    hz n hn q hq (by rw [hf.nodeAt]; exact hsize)
  obtain ⟨s₁, position', total, sc, new, hloop, hstep, -, -, hdone⟩ :=
    writeLoop_spec hv env hn msg (nbytes + 1) s nbytes position 0 hs hf (by omega) hend
  rw [writeFile_eq hf (hvol.lt hv) hvol hend hstep.slot hloop] at hrun
  cases sc with
  | error e => cases hrun
  | ok u =>
    obtain ⟨rfl, rfl, hlen, hnew⟩ := hdone rfl
    replace hnew := hnew hzero
    simp only [readmsg, List.drop_zero] at hlen hnew
    -- the inode as it is stored in the end
    obtain ⟨x, hx, hxblock, hxsize, hs'⟩ : ∃ x : Inode, x.ino = n ∧
        x.odi.block = (s₁.slot i).odi.block ∧
        x.odi.size.toNat = max (nodeAt v s n).size.toNat (position + nbytes) ∧
        s' = wroteInode v env (s₁.setSlot i x) i := by
      have hino : (s₁.slot i).ino = n := hstep.slot.ino.trans hf.ino
      obtain ⟨odi, hblock, hodi, hgrow⟩ := growInode_eq (s := s₁) (i := i)
        (by rw [hstep.slot.mode, hreg]) (maxFilePos_lt hend)
      rw [hstep.slot.size] at hodi hgrow
      simp only [Except.ok.injEq, Prod.mk.injEq] at hrun
      refine ⟨{ s₁.slot i with
          odi := odi
          update := { (s₁.slot i).update with ctime := true, mtime := true }
          dirty := true }, hino, hblock, by rw [hf.nodeAt]; exact hodi, ?_⟩
      rw [← hrun.1, hgrow]
      simp [inodeMarkdirty, touchInode, Fs.setSlot]
    obtain ⟨hok, hnode, hbytes⟩ :=
      storeInode_files hv hstep.ok hn (hstep.slot.found hf) hx hxblock env
    rw [← hs'] at hok hnode hbytes
    have hother : ∀ m, live m → m ≠ n → nodeAt v s' m = nodeAt v s m := fun m hm hmn => by
      rw [hnode m (hs.on_volume m hm), if_neg hmn,
        hstep.slot.nodeAt_ne hv hf (hs.on_volume m hm) hmn]
    have hsize : (nodeAt v s' n).size.toNat =
        max (nodeAt v s n).size.toNat (position + nbytes) := by
      rw [hnode n hvol, if_pos rfl, ← hxsize]
      have htimed := congrArg OndiskInode.size (untimed_timed v env x)
      exact congrArg UInt32.toNat htimed
    have hcontent : ∀ q, q ≤ maxFilePos →
        contentAt v s' n q = overlay (contentAt v s n) position (msg.take nbytes) q := by
      intro q hq
      have hlt := maxFilePos_lt hq
      rw [hbytes n hn q hlt, hstep.content n hn q hlt, if_pos rfl, hnew q hq]
    have hcontent' : ∀ m, live m → m ≠ n → ∀ q, q ≤ maxFilePos →
        contentAt v s' m q = contentAt v s m q := by
      intro m hm hmn q hq
      have hlt := maxFilePos_lt hq
      rw [hbytes m hm q hlt, hstep.content m hm q hlt, if_neg hmn]
    -- and there are again, behind the new end
    have hz' : TailZero v s' live := by
      intro m hm q hq hpast
      by_cases hmn : m = n
      · subst hmn
        rw [hsize] at hpast
        rw [hcontent q hq, overlay_of_out (.inr (by omega))]
        exact hz m hm q hq (by omega)
      · rw [hother m hm hmn] at hpast
        rw [hcontent' m hm hmn q hq]
        exact hz m hm q hq hpast
    refine ⟨?_, fun q hq => ?_, hsize, fun m hm hmn => ⟨hother m hm hmn, fun q hq => ?_⟩, hok, hz'⟩
    · rw [List.length_take] at hlen
      omega
    · rw [hz'.fileByte hn hq, hcontent q hq]
      exact overlay_congr fun _ => (hz.fileByte hn hq).symm
    · rw [hz'.fileByte hm hq, hz.fileByte hm hq, hcontent' m hm hmn q hq]

/-! ### A file on the small volume -/

/-- The small volume with an empty regular file, inode 12, in slot 0 of the cache. -/
def sampleFileFs : Fs :=
  { sampleFs with
    slot := fun i =>
      if i = 0 then
        { emptySlot with
          odi := { emptySlot.odi with mode := 0x81A4, linksCount := 1 }, ino := 12, count := 1 }
      else emptySlot
    unused := (List.range nrInodes).tail
    hash := fun h => if h = 12 then [0] else [] }

/-- The root directory and the file have one block between them. -/
theorem sampleFileFs_oneBlock :
    OneBlock sampleVolume sampleFileFs (fun n => n = 2 ∨ n = 12) 2 9 := by
  intro n hn
  rcases hn with rfl | rfl
  · decide
  · decide

theorem sampleFileFs_filesOk :
    FilesOk sampleVolume sampleFileFs fun n => n = 2 ∨ n = 12 := by
  refine filesOk_single (fun n hn => ?_)
    (sampleFs_blockConsistent.congr (fun _ => rfl) rfl fun _ _ => rfl) sampleFileFs_oneBlock
    ⟨by decide, by decide, by decide⟩ ⟨0, 8, by decide, by decide, by decide, by decide⟩
  rcases hn with rfl | rfl
  · exact ⟨by decide, by decide⟩
  · exact ⟨by decide, by decide⟩

theorem sampleFileFs_tailZero : TailZero sampleVolume sampleFileFs fun n => n = 2 ∨ n = 12 := by
  intro n hn q hq hsize
  obtain ⟨k, p, hcalc, hlen, hplace, hnum⟩ := calc_spec (v := sampleVolume) (by decide)
    (show q < 2 ^ 32 by unfold maxFilePos at hq; omega)
  rw [contentAt_eq hcalc, sampleFileFs_oneBlock.place hn (hplace n)]
  by_cases h : n = 2 ∧ k.val = 0
  · -- the root directory has one block and is as large as that
    obtain ⟨rfl, hk⟩ := h
    obtain rfl : k = 0 := Fin.ext hk
    have hp : p = [] := List.length_eq_zero_iff.mp hlen
    rw [hp, show sampleVolume.blockSize = 1024 from by decide] at hnum
    rw [show (nodeAt sampleVolume sampleFileFs 2).size.toNat = 1024 from by decide] at hsize
    have h0 : (0 : Nat) = q / 1024 := hnum
    omega
  · rw [if_neg h, if_pos rfl]

/-- Five bytes written into the new file at position 1022, over the end of its first block. -/
theorem writeFile_content_sample :
    ∃ s', writeFile sampleVolume sampleEnv sampleFileFs 12 5 1022 [1, 2, 3, 4, 5] =
        .ok (s', .ok 5) ∧
      (∀ q, q ≤ maxFilePos → fileByte sampleVolume s' 12 q =
        overlay (fileByte sampleVolume sampleFileFs 12) 1022 [1, 2, 3, 4, 5] q) ∧
      (nodeAt sampleVolume s' 12).size.toNat = 1027 := by
  have hreply : (writeFile sampleVolume sampleEnv sampleFileFs 12 5 1022 [1, 2, 3, 4, 5]).toOption.map
      (fun r => r.2.toOption) = some (some 5) := by decide
  obtain ⟨s', hrun⟩ : ∃ s', writeFile sampleVolume sampleEnv sampleFileFs 12 5 1022 [1, 2, 3, 4, 5] =
      .ok (s', .ok 5) := by
    generalize writeFile sampleVolume sampleEnv sampleFileFs 12 5 1022 [1, 2, 3, 4, 5] = r at hreply
    match r, hreply with
    | .ok (s', .ok total), h =>
      cases h
      exact ⟨s', rfl⟩
  obtain ⟨-, hbytes, hsize, -⟩ := writeFile_content (i := 0) sampleVolume_layout
    sampleFileFs_filesOk sampleFileFs_tailZero (.inr rfl) rfl (by decide) sampleEnv
    [1, 2, 3, 4, 5] (by decide) hrun
  exact ⟨s', hrun, hbytes, hsize⟩

end File

end Cheviot.Ext2
