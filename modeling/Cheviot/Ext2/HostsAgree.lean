import Cheviot.Ext2.Hosts
import Cheviot.Ext2.Codec

/-!
# The two kinds of host: bitmaps, reading a directory, every operation

A directory is searched alike where each record that is gone past leads to the same place on
both hosts, as the two loops then make the same steps (`Lib.Loop`). A bitmap is loaded without
a swap, so that a word with a bit set is another one on the other host. The copies of the
superblock and of the group descriptors swap every member, whatever the host.

* `allocBit_host_iff`, `clearBit_host_iff` — the bitmap functions do the same only
  where they change nothing.
* `seek_iff`, `fill_iff`, `getDirents_host_iff` — reading a directory, where the
  place behind the last record of a block counts too, as the next position.
* `hosts_agree_iff` — every operation, with its own condition.
-/

namespace Cheviot.Ext2

open Cheviot.Bytes Cheviot.Bits Cheviot.Loop Cheviot.Members

/-! ## The bitmap functions -/

/-- The bits that `alloc_bit` looks at, from word `w` on, are all set. -/
def FullFrom (be : Bool) (size : Nat) (b : Buf) (maxBits w : Nat) : Prop :=
  ∀ j, w * 32 ≤ j → j < maxBits → 4 * (j / 32) + 4 ≤ size → bitAt be b j = true

section Bitmaps

variable {be : Bool} {size maxBits n w : Nat} {b : Buf}

/-- A word with no clear bit is passed over. -/
theorem allocBitLoop_word (hw : w * 32 < maxBits) (hin : 4 * w + 4 ≤ size)
    (hfull : ∀ c, c < 32 → w * 32 + c < maxBits → hasBit (wordAt be b w) c = true) :
    allocBitLoop be size b maxBits (n + 1) w = allocBitLoop be size b maxBits n (w + 1) := by
  rw [allocBitLoop, if_pos hw, if_neg (by omega)]
  split
  · rfl
  · cases hfind : allocBitInWord (wordAt be b w) w maxBits with
    | none => rfl
    | some c =>
      obtain ⟨hc, hlt, hclear, -⟩ := allocBitInWord_some hfind
      rw [hfull c hc hlt] at hclear
      cases hclear

theorem FullFrom.word (h : FullFrom be size b maxBits w) (hin : 4 * w + 4 ≤ size) (c : Nat)
    (hc : c < 32) (hlt : w * 32 + c < maxBits) : hasBit (wordAt be b w) c = true := by
  have hbit := h (w * 32 + c) (by omega) hlt (by omega)
  rwa [bitAt, show (w * 32 + c) / 32 = w from by omega,
    show (w * 32 + c) % 32 = c from by omega] at hbit

theorem FullFrom.next (h : FullFrom be size b maxBits w) : FullFrom be size b maxBits (w + 1) :=
  fun j h1 h2 h3 => h j (by omega) h2 h3

/-- How `alloc_bit` ends when it finds nothing: it may run past the buffer first. -/
def searchEnd (size maxBits w : Nat) : Except Fault (Option (Buf × Nat)) :=
  if w * 32 < maxBits ∧ size < 4 * ((maxBits - 1) / 32) + 4 then .error .outOfBounds else .ok none

/-- In a full bitmap nothing is found. -/
theorem allocBitLoop_full : ∀ (n w : Nat), maxBits ≤ (w + n) * 32 →
    FullFrom be size b maxBits w →
      allocBitLoop be size b maxBits n w = searchEnd size maxBits w := by
  intro n
  induction n with
  | zero =>
    intro w hw _
    rw [searchEnd, if_neg (by omega)]
    rfl
  | succ n ih =>
    intro w hw h
    rcases Nat.lt_or_ge (w * 32) maxBits with hlt | hge
    · rcases Nat.lt_or_ge size (4 * w + 4) with hout | hin
      · rw [allocBitLoop, if_pos hlt, if_pos hout, searchEnd, if_pos ⟨hlt, by omega⟩]
      · rw [allocBitLoop_word hlt hin (h.word hin), ih (w + 1) (by omega) h.next, searchEnd,
          searchEnd]
        refine if_congr ?_ rfl rfl
        omega
    · rw [allocBitLoop, if_neg (by omega), searchEnd, if_neg (by omega)]

theorem searchEnd_ne_some (r : Buf × Nat) : searchEnd size maxBits w ≠ .ok (some r) := by
  intro h
  unfold searchEnd at h
  split at h
  · cases h
  · cases h

/-- In a bitmap that is not full a clear bit is found. -/
theorem allocBitLoop_found : ∀ (n w : Nat), maxBits ≤ (w + n) * 32 →
    ¬ FullFrom be size b maxBits w →
      ∃ i, allocBitLoop be size b maxBits n w = .ok (some (setBitAt be b i, i)) ∧
        bitAt be b i = false := by
  intro n
  induction n with
  | zero =>
    intro w hw h
    exact absurd (fun j h1 h2 _ => absurd h2 (by omega)) h
  | succ n ih =>
    intro w hw h
    rcases Nat.lt_or_ge (w * 32) maxBits with hlt | hge
    · rcases Nat.lt_or_ge size (4 * w + 4) with hout | hin
      · exact absurd (fun j h1 _ h3 => absurd h3 (by omega)) h
      · by_cases hword : ∀ c, c < 32 → w * 32 + c < maxBits → hasBit (wordAt be b w) c = true
        · -- the word is full: the clear bit is in one behind it
          rw [allocBitLoop_word hlt hin hword]
          refine ih (w + 1) (by omega) fun hnext => h fun j h1 h2 h3 => ?_
          rcases Nat.lt_or_ge j ((w + 1) * 32) with hj | hj
          · rw [bitAt, show j / 32 = w from by omega]
            exact hword (j % 32) (by omega) (by omega)
          · exact hnext j hj h2 h3
        · -- a clear bit below the limit is in this word
          have hones : wordAt be b w ≠ 0xFFFFFFFF := by
            intro hones
            refine hword fun c hc _ => ?_
            rw [hones]
            exact hasBit_of_all_ones hc
          rw [allocBitLoop, if_pos hlt, if_neg (by omega), if_neg hones]
          cases hfind : allocBitInWord (wordAt be b w) w maxBits with
          | none => exact absurd (fun c hc hlt => allocBitInWord_none hfind hc hlt) hword
          | some c =>
            obtain ⟨hc, -, hclear, -⟩ := allocBitInWord_some hfind
            have hdiv : (w * 32 + c) / 32 = w := by omega
            have hmod : (w * 32 + c) % 32 = c := by omega
            refine ⟨w * 32 + c, ?_, ?_⟩
            · rw [setBitAt, hdiv, hmod]
            · rw [bitAt, hdiv, hmod]
              exact hclear
    · exact absurd (fun j h1 h2 _ => absurd h2 (by omega)) h

/-- `alloc_bit` does the same on both hosts only where it finds nothing. -/
theorem allocBit_host_iff (size : Nat) (b : Buf) (maxBits start : Nat) :
    allocBit false size b maxBits start = allocBit true size b maxBits start ↔
      FullFrom false size b maxBits start ∧ FullFrom true size b maxBits start := by
  have hfuel : maxBits ≤ (start + (maxBits / 32 + 1)) * 32 := by omega
  unfold allocBit
  constructor
  · intro h
    by_cases h0 : FullFrom false size b maxBits start
    · by_cases h1 : FullFrom true size b maxBits start
      · exact ⟨h0, h1⟩
      · obtain ⟨i, hi, -⟩ := allocBitLoop_found _ _ hfuel h1
        rw [allocBitLoop_full _ _ hfuel h0, hi] at h
        exact absurd h (searchEnd_ne_some _)
    · obtain ⟨i, hi, hclear⟩ := allocBitLoop_found _ _ hfuel h0
      rw [hi] at h
      by_cases h1 : FullFrom true size b maxBits start
      · rw [allocBitLoop_full _ _ hfuel h1] at h
        exact absurd h.symm (searchEnd_ne_some _)
      · obtain ⟨i', hi', -⟩ := allocBitLoop_found _ _ hfuel h1
        rw [hi'] at h
        injection h with h
        injection h with h
        injection h with hset hbit
        subst hbit
        exact absurd hset (setBitAt_host_ne hclear)
  · rintro ⟨h0, h1⟩
    rw [allocBitLoop_full _ _ hfuel h0, allocBitLoop_full _ _ hfuel h1]

/-- `clear_bit` does the same on both hosts only where it clears nothing. -/
theorem clearBit_host_iff (size : Nat) (b : Buf) (index : Nat) :
    clearBit false size b index = clearBit true size b index ↔
      (4 * (index / 32) + 4 ≤ size → bitAt false b index = false ∧ bitAt true b index = false) := by
  rcases Nat.lt_or_ge size (4 * (index / 32) + 4) with hout | hin
  · have hfail : ∀ be, clearBit be size b index = .error .outOfBounds := by
      intro be
      rw [clearBit, if_pos hout]
    rw [hfail, hfail]
    exact iff_of_true rfl fun h => absurd h (by omega)
  · cases h0 : bitAt false b index with
    | false =>
      rw [clearBit_of_clear hin h0]
      cases h1 : bitAt true b index with
      | false =>
        rw [clearBit_of_clear hin h1]
        exact iff_of_true rfl fun _ => ⟨rfl, rfl⟩
      | true =>
        rw [clearBit_of_set hin h1]
        exact iff_of_false (fun h => by cases h) fun h => Bool.false_ne_true (h hin).2.symm
    | true =>
      rw [clearBit_of_set hin h0]
      refine iff_of_false (fun h => ?_) fun h => Bool.false_ne_true (h hin).1.symm
      cases h1 : bitAt true b index with
      | false =>
        rw [clearBit_of_clear hin h1] at h
        cases h
      | true =>
        rw [clearBit_of_set hin h1] at h
        injection h with h
        injection h with h
        exact clearBitAt_host_ne h0 h

end Bitmaps

/-! ## The loops of `get_dirents` -/

/-- One round of the loop of `seek_to_valid_dirent`. -/
def seekStep (v : Volume) (b : Buf) (pos : Nat) : Nat × Nat → (Nat × Nat) ⊕ Except Fault (Nat × Nat)
  | (scan, o) =>
    if v.blockSize < o + minDirEntrySize then .inr (.error .outOfBounds)
    else if scan + recLen v.beCpu b o ≤ pos ∧ nextPos v.beCpu b o < v.blockSize then
      if recLen v.beCpu b o = 0 then
        .inr (.error (.panic "extfs: readdir dirent record length is 0"))
      else .inl (scan + recLen v.beCpu b o, nextPos v.beCpu b o)
    else .inr (.ok (scan, o))

/-- The records that `seek_to_valid_dirent` goes through. -/
def walkedSeek (v : Volume) (b : Buf) (pos : Nat) : List (Nat × Nat) :=
  visited (seekStep v b pos) (v.blockSize + 1) (0, 0)

/-- The buffer of `fill_dirent_buf` behind the record at `o`, if it goes past it. -/
def copyDirent (v : Volume) (b : Buf) (size : Nat) (db : DirentBuf) (o : Nat) : Option DirentBuf :=
  if dIno false b o = 0 then some db
  else if v.blockSize < o + minDirEntrySize + nameLen b o then none
  else direntBufAdd v db size
    ⟨(dIno false b o).toNat, getBytes b (o + minDirEntrySize) (nameLen b o)⟩

/-- One round of `fill_dirent_buf`. -/
def fillStep (v : Volume) (b : Buf) (size : Nat) :
    Nat × DirentBuf → (Nat × DirentBuf) ⊕ Except Fault (Bool × Nat × DirentBuf)
  | (o, db) =>
    if o < v.blockSize then
      if v.blockSize < o + minDirEntrySize then .inr (.error .outOfBounds)
      else
        match copyDirent v b size db o with
        | some db' => .inl (nextPos v.beCpu b o, db')
        | none =>
          match direntBufAdd v db size
              ⟨(dIno false b o).toNat, getBytes b (o + minDirEntrySize) (nameLen b o)⟩ with
          | none => .inr (.ok (true, o, db))
          | some _ => .inr (.error .outOfBounds)
    else .inr (.ok (false, o, db))

/-- The records that `fill_dirent_buf` goes through, with the buffer at each. -/
def walkedFill (v : Volume) (b : Buf) (size o : Nat) (db : DirentBuf) : List (Nat × DirentBuf) :=
  visited (fillStep v b size) (v.blockSize + size + 1) (o, db)

/-- One round of the loop of `get_dirents`. -/
def direntsStep (v : Volume) (blk : Nat → Buf) (odi : OndiskInode) (size : Nat) :
    Nat × DirentBuf → (Nat × DirentBuf) ⊕ Except Fault (Nat × DirentBuf)
  | (pos, db) =>
    if pos < odi.size.toNat then
      let base := pos / v.blockSize * v.blockSize
      let block := readMapEntry v blk odi pos
      if block = noBlock then .inr (.error (.panic "bp != NULL"))
      else
        match seekToValidDirent v (blk block) (pos - base) with
        | .error e => .inr (.error e)
        | .ok none => .inl (base + v.blockSize, db)
        | .ok (some o) =>
          match fillDirentBuf v (blk block) size (v.blockSize + size + 1) o db with
          | .error e => .inr (.error e)
          | .ok (true, o, db) => .inr (.ok (base + o, db))
          | .ok (false, o, db) => .inl (base + o, db)
    else .inr (.ok (pos, db))

/-- The positions that `get_dirents` goes through, with the buffer at each. -/
def walkedDirents (v : Volume) (blk : Nat → Buf) (odi : OndiskInode) (cookie size : Nat) :
    List (Nat × DirentBuf) :=
  visited (direntsStep v blk odi size) (odi.size.toNat + 1) (cookie, ⟨[], 0⟩)

section Loops

variable (v : Volume) (b : Buf)

theorem seekLoop_eq_run (pos fuel scan o : Nat) :
    seekLoop v b pos fuel scan o = run (.error .hang) (seekStep v b pos) fuel (scan, o) := by
  induction fuel generalizing scan o with
  | zero => rfl
  | succ fuel ih =>
    rw [seekLoop, run]
    simp only [seekStep]
    split
    · rfl
    · split
      · split
        · rfl
        · exact ih _ _
      · rfl

theorem fillDirentBuf_eq_run (size fuel o : Nat) (db : DirentBuf) :
    fillDirentBuf v b size fuel o db = run (.error .hang) (fillStep v b size) fuel (o, db) := by
  induction fuel generalizing o db with
  | zero => rfl
  | succ fuel ih =>
    rw [fillDirentBuf, run]
    simp only [fillStep, copyDirent, bswap4_dIno, ne_eq, dIno_eq_zero v.beCpu]
    by_cases ho : o < v.blockSize
    · rw [if_pos ho, if_pos ho]
      by_cases hout : v.blockSize < o + minDirEntrySize
      · rw [if_pos hout, if_pos hout]
      · rw [if_neg hout, if_neg hout]
        by_cases h0 : dIno false b o = 0
        · simp only [h0, not_true_eq_false, if_true, if_false, ih]
        · simp only [h0, not_false_eq_true, if_true, if_false]
          cases hadd : direntBufAdd v db size
              ⟨(dIno false b o).toNat, getBytes b (o + minDirEntrySize) (nameLen b o)⟩ with
          | none => simp only [ite_self]
          | some db' =>
            by_cases hend : v.blockSize < o + minDirEntrySize + nameLen b o
            · simp only [if_pos hend]
            · simp only [if_neg hend, ih]
    · rw [if_neg ho, if_neg ho]

theorem getDirentsLoop_eq_run (blk : Nat → Buf) (odi : OndiskInode) (size fuel pos : Nat)
    (db : DirentBuf) : getDirentsLoop v blk odi size fuel pos db =
      run (.error .hang) (direntsStep v blk odi size) fuel (pos, db) := by
  induction fuel generalizing pos db with
  | zero => rfl
  | succ fuel ih =>
    rw [run]
    simp only [getDirentsLoop, direntsStep]
    split
    · split
      · rfl
      · cases seekToValidDirent v (blk (readMapEntry v blk odi pos))
            (pos - pos / v.blockSize * v.blockSize) with
        | error e => rfl
        | ok r =>
          cases r with
          | none => exact ih _ _
          | some o =>
            refine (bind_of_ok rfl _).trans ?_
            cases hfill : fillDirentBuf v (blk (readMapEntry v blk odi pos)) size
                (v.blockSize + size + 1) o db with
            | error e =>
              simp only [hfill]
              rfl
            | ok r =>
              obtain ⟨full, o, db⟩ := r
              simp only [hfill]
              refine (bind_of_ok rfl _).trans ?_
              cases full with
              | true => rfl
              | false => exact ih _ _
    · rfl

end Loops

/-! ## Seeking in a block -/

/-- The record of a block that position `pos` lies in. -/
def SeekTo (v : Volume) (b : Buf) (pos o : Nat) : Prop :=
  CameTo v.blockSize b (fun o => o + recLen false b o ≤ pos) o ∧
    o + minDirEntrySize ≤ v.blockSize ∧ pos < o + recLen false b o

/-- The records in front of position `pos` lead to the same place on both hosts. -/
def EvenSeek (v : Volume) (b : Buf) (pos : Nat) : Prop :=
  ∀ o, CameTo v.blockSize b (fun o => o + recLen false b o ≤ pos) o →
    o + minDirEntrySize ≤ v.blockSize → o + recLen false b o ≤ pos →
      nextPos false b o = nextPos true b o

/-- `seek_to_valid_dirent` goes through the same records to the same one on both hosts. -/
def SameSeek (v : Volume) (b : Buf) (pos : Nat) : Prop :=
  walkedSeek (v.host false) b pos = walkedSeek (v.host true) b pos ∧
    seekLoop (v.host false) b pos (v.blockSize + 1) 0 0 =
      seekLoop (v.host true) b pos (v.blockSize + 1) 0 0

section Seek

variable {v : Volume} {b : Buf} {be : Bool} {pos scan o : Nat}

theorem seekStep_header (h : v.blockSize < o + minDirEntrySize) :
    seekStep (v.host be) b pos (scan, o) = .inr (.error .outOfBounds) := if_pos h

theorem seekStep_found (hin : o + minDirEntrySize ≤ v.blockSize) (h : pos < scan + recLen false b o) :
    seekStep (v.host be) b pos (scan, o) = .inr (.ok (scan, o)) := by
  have hin' : ¬ (v.host be).blockSize < o + minDirEntrySize := Nat.not_lt.mpr hin
  simp only [seekStep, host_beCpu, recLen_host be]
  rw [if_neg hin', if_neg fun hc => absurd hc.1 (by omega)]

theorem seekStep_inl {t : Nat × Nat} (h : seekStep (v.host be) b pos (scan, o) = .inl t) :
    o + minDirEntrySize ≤ v.blockSize ∧ scan + recLen false b o ≤ pos ∧ recLen false b o ≠ 0 ∧
      nextPos be b o < v.blockSize ∧ t = (scan + recLen false b o, nextPos be b o) := by
  simp only [seekStep, host_beCpu, host_blockSize, recLen_host be] at h
  split at h
  · cases h
  · split at h
    · split at h
      · cases h
      · next hin hgo hlen =>
        cases h
        exact ⟨by omega, hgo.1, hlen, hgo.2, rfl⟩
    · cases h

theorem seekStep_go (hin : o + minDirEntrySize ≤ v.blockSize) (hpos : scan + recLen false b o ≤ pos)
    (hlen : recLen false b o ≠ 0) (hnext : nextPos be b o < v.blockSize) :
    seekStep (v.host be) b pos (scan, o) = .inl (scan + recLen false b o, nextPos be b o) := by
  have hin' : ¬ (v.host be).blockSize < o + minDirEntrySize := Nat.not_lt.mpr hin
  simp only [seekStep, host_beCpu, recLen_host be]
  rw [if_neg hin', if_pos ⟨hpos, hnext⟩, if_neg hlen]

theorem seekStep_less (u t : Nat × Nat) (h : seekStep (v.host be) b pos u = .inl t) :
    v.blockSize - t.2 < v.blockSize - u.2 := by
  obtain ⟨scan, o⟩ := u
  obtain ⟨hin, -, hlen, hnext, rfl⟩ := seekStep_inl h
  have hge := nextPos_ge be b o
  have hne : nextPos be b o ≠ o := fun h => hlen ((nextPos_stuck be b o).mp h)
  show v.blockSize - nextPos be b o < v.blockSize - o
  omega

/-- On a little-endian host the walk comes to the records that the block alone says. -/
theorem seek_comes_iff (hpos : pos < v.blockSize) (t : Nat × Nat) :
    Comes (seekStep (v.host false) b pos) (0, 0) t ↔
      t.1 = t.2 ∧ CameTo v.blockSize b (fun o => o + recLen false b o ≤ pos) t.2 := by
  constructor
  · intro h
    induction h with
    | refl => exact ⟨rfl, .first⟩
    | @tail u w _ hstep ih =>
      obtain ⟨scan, o⟩ := u
      obtain ⟨hscan, ho⟩ := ih
      have hscan : scan = o := hscan
      subst hscan
      obtain ⟨hin, hle, -, -, rfl⟩ := seekStep_inl hstep
      exact ⟨rfl, ho.next hin hle⟩
  · obtain ⟨scan, o⟩ := t
    rintro ⟨hscan, ho⟩
    have hscan : scan = o := hscan
    subst hscan
    have hcame : CameTo v.blockSize b (fun o => o + recLen false b o ≤ pos) scan := ho
    clear ho hscan
    induction hcame with
    | first => exact .refl
    | @next o _ hin hpass ih =>
      by_cases hlen : recLen false b o = 0
      · rw [hlen]
        exact ih
      · refine ih.tail (seekStep_go hin hpass hlen ?_)
        rw [nextPos_little]
        omega

/-- The two hosts do the same in a round. -/
theorem seekStep_iff (hpos : pos < v.blockSize) :
    seekStep (v.host false) b pos (o, o) = seekStep (v.host true) b pos (o, o) ↔
      (o + minDirEntrySize ≤ v.blockSize → o + recLen false b o ≤ pos →
        nextPos false b o = nextPos true b o) := by
  rcases Nat.lt_or_ge v.blockSize (o + minDirEntrySize) with hout | hin
  · rw [seekStep_header hout, seekStep_header hout]
    exact iff_of_true rfl fun h => absurd h (by omega)
  · rcases Nat.lt_or_ge pos (o + recLen false b o) with hfound | hgo
    · rw [seekStep_found hin hfound, seekStep_found hin hfound]
      exact iff_of_true rfl fun _ h => absurd h (by omega)
    · by_cases hlen : recLen false b o = 0
      · have h0 := (nextPos_stuck false b o).mpr hlen
        have h1 := (nextPos_stuck true b o).mpr hlen
        refine iff_of_true ?_ fun _ _ => h0.trans h1.symm
        simp only [seekStep, host_beCpu, recLen_host true, h0, h1, hlen]
        rfl
      · have hlittle := nextPos_little b o
        rw [seekStep_go hin hgo hlen (by omega)]
        constructor
        · intro h _ _
          obtain ⟨-, -, -, -, ht⟩ := seekStep_inl h.symm
          exact (Prod.mk.inj ht).2
        · intro h
          have h := h hin hgo
          rw [seekStep_go hin hgo hlen (by omega), h]

/-- `seek_to_valid_dirent` on both hosts. -/
theorem seek_iff (hpos : v.blockSize = 0 ∨ pos < v.blockSize) : SameSeek v b pos ↔ EvenSeek v b pos := by
  rcases Nat.eq_zero_or_pos v.blockSize with hz | hbs
  · refine iff_of_true ?_ fun o _ hin => ?_
    · have hsize : ∀ be, (v.host be).blockSize = 0 := fun _ => hz
      simp only [SameSeek, walkedSeek, seekLoop, visited, seekStep, hsize, minDirEntrySize]
      exact ⟨rfl, rfl⟩
    · rw [hz, minDirEntrySize] at hin
      omega
  have hpos : pos < v.blockSize := by omega
  rw [SameSeek, seekLoop_eq_run, seekLoop_eq_run]
  refine (same_iff (fun s t h => .inl (seekStep_less s t h))
    (fun s t h => .inl (seekStep_less s t h)) (Nat.lt_succ_self _)).trans ?_
  constructor
  · intro h o ho
    exact (seekStep_iff hpos).mp (h (o, o) ((seek_comes_iff hpos _).mpr ⟨rfl, ho⟩))
  · intro h t ht
    obtain ⟨scan, o⟩ := t
    obtain ⟨hscan, ho⟩ := (seek_comes_iff hpos _).mp ht
    have hscan : scan = o := hscan
    subst hscan
    exact (seekStep_iff hpos).mpr (h scan ho)

/-- Where the loop of `seek_to_valid_dirent` leaves on a little-endian host. -/
theorem seekLoop_iff (hpos : pos < v.blockSize) (t : Nat × Nat) :
    seekLoop (v.host false) b pos (v.blockSize + 1) 0 0 = .ok t ↔
      ∃ o, t = (o, o) ∧ SeekTo v b pos o := by
  rw [seekLoop_eq_run]
  constructor
  · intro h
    obtain ⟨u, hu, hdone⟩ := done_of_run h fun h => nomatch h
    obtain ⟨scan, o⟩ := u
    obtain ⟨hscan, ho⟩ := (seek_comes_iff hpos _).mp hu
    have hscan : scan = o := hscan
    subst hscan
    have hin : scan + minDirEntrySize ≤ v.blockSize := by
      refine Nat.le_of_not_lt fun hout => ?_
      rw [seekStep_header hout] at hdone
      cases hdone
    have hfound : pos < scan + recLen false b scan := by
      refine Nat.lt_of_not_le fun hgo => ?_
      by_cases hlen : recLen false b scan = 0
      · have hout : ¬ v.blockSize < scan + minDirEntrySize := Nat.not_lt.mpr hin
        have hnext := (nextPos_stuck false b scan).mpr hlen
        have hscan : scan < v.blockSize := by
          rw [minDirEntrySize] at hin
          omega
        simp only [seekStep, host_beCpu, host_blockSize, if_neg hout, hnext, hlen, if_true,
          if_pos (show scan + 0 ≤ pos ∧ scan < v.blockSize from ⟨by omega, hscan⟩)] at hdone
        cases hdone
      · have hlittle := nextPos_little b scan
        rw [seekStep_go hin hgo hlen (by omega)] at hdone
        cases hdone
    rw [seekStep_found hin hfound] at hdone
    cases hdone
    exact ⟨scan, rfl, ho, hin, hfound⟩
  · rintro ⟨o, rfl, ho, hin, hfound⟩
    exact run_of_comes (fun s t h => .inl (seekStep_less s t h)) (Nat.lt_succ_self _)
      ((seek_comes_iff hpos _).mpr ⟨rfl, ho⟩) (seekStep_found hin hfound)

/-- What `seek_to_valid_dirent` finds on a little-endian host. -/
theorem seek_found_iff (hpos : v.blockSize = 0 ∨ pos < v.blockSize) (r : Option Nat) :
    seekToValidDirent (v.host false) b pos = .ok r ↔ ∃ o, r = some o ∧ SeekTo v b pos o := by
  rcases Nat.eq_zero_or_pos v.blockSize with hz | hbs
  · refine iff_of_false (fun h => ?_) fun ⟨o, _, _, hin, _⟩ => ?_
    · obtain ⟨t, ht, -⟩ := ok_of_bind h
      have hsize : (v.host false).blockSize = 0 := hz
      rw [hsize, seekLoop, hsize, if_pos (by decide)] at ht
      cases ht
    · rw [hz, minDirEntrySize] at hin
      omega
  have hpos : pos < v.blockSize := by omega
  have hresult : ∀ o, SeekTo v b pos o → seekToValidDirent (v.host false) b pos = .ok (some o) := by
    intro o ho
    have hin := ho.2.1
    rw [minDirEntrySize] at hin
    refine (bind_of_ok ((seekLoop_iff hpos _).mpr ⟨o, rfl, ho⟩) _).trans ?_
    show pure (if v.blockSize ≤ o then none else some o) = _
    rw [if_neg (by omega)]
    rfl
  constructor
  · intro h
    obtain ⟨t, ht, -⟩ := ok_of_bind h
    obtain ⟨o, -, ho⟩ := (seekLoop_iff hpos _).mp ht
    rw [hresult o ho] at h
    cases h
    exact ⟨o, rfl, ho⟩
  · rintro ⟨o, rfl, ho⟩
    exact hresult o ho

end Seek

/-! ## Copying the records of a block -/

/-- Copying from the record at `o₀` with buffer `db₀` on comes to a record with a buffer. -/
inductive Copied (v : Volume) (b : Buf) (size o₀ : Nat) (db₀ : DirentBuf) : Nat → DirentBuf → Prop
  | first : Copied v b size o₀ db₀ o₀ db₀
  | next {o : Nat} {db db' : DirentBuf} (h : Copied v b size o₀ db₀ o db)
      (hin : o + minDirEntrySize ≤ v.blockSize) (hcopy : copyDirent v b size db o = some db') :
      Copied v b size o₀ db₀ (o + recLen false b o) db'

/-- The records that are copied lead to the same place on both hosts. -/
def EvenFill (v : Volume) (b : Buf) (size o₀ : Nat) (db₀ : DirentBuf) : Prop :=
  ∀ o db db', Copied v b size o₀ db₀ o db → o + minDirEntrySize ≤ v.blockSize →
    copyDirent v b size db o = some db' → nextPos false b o = nextPos true b o

/-- `fill_dirent_buf` goes through the same records to the same result on both hosts. -/
def SameFill (v : Volume) (b : Buf) (size o : Nat) (db : DirentBuf) : Prop :=
  walkedFill (v.host false) b size o db = walkedFill (v.host true) b size o db ∧
    fillDirentBuf (v.host false) b size (v.blockSize + size + 1) o db =
      fillDirentBuf (v.host true) b size (v.blockSize + size + 1) o db

section Fill

variable {v : Volume} {b : Buf} {be : Bool} {size o : Nat} {db db' : DirentBuf}

/-- An entry takes bytes of the buffer. -/
theorem direntBufAdd_less {e : Dirent} (h : direntBufAdd v db size e = some db') :
    size - db'.position < size - db.position := by
  simp only [direntBufAdd] at h
  split at h
  · next hfit =>
    cases h
    have hpos : 8 ≤ direntReclen v e.name.length := by
      rw [direntReclen]
      omega
    show size - (db.position + direntReclen v e.name.length) < size - db.position
    omega
  · cases h

/-- A record that is gone past is free and leaves the buffer alone, or takes bytes of it. -/
theorem copyDirent_less (h : copyDirent v b size db o = some db') :
    dIno false b o = 0 ∧ db' = db ∨ size - db'.position < size - db.position := by
  unfold copyDirent at h
  split at h
  · next h0 =>
    cases h
    exact .inl ⟨h0, rfl⟩
  · split at h
    · cases h
    · exact .inr (direntBufAdd_less h)

theorem fillStep_end (h : v.blockSize ≤ o) :
    fillStep (v.host be) b size (o, db) = .inr (.ok (false, o, db)) := if_neg (Nat.not_lt.mpr h)

theorem fillStep_go (hin : o + minDirEntrySize ≤ v.blockSize)
    (hcopy : copyDirent v b size db o = some db') :
    fillStep (v.host be) b size (o, db) = .inl (nextPos be b o, db') := by
  have hlt : o < (v.host be).blockSize := by
    rw [minDirEntrySize] at hin
    rw [host_blockSize]
    omega
  have hout : ¬ (v.host be).blockSize < o + minDirEntrySize := Nat.not_lt.mpr hin
  have hcopy : copyDirent (v.host be) b size db o = some db' := hcopy
  simp only [fillStep, if_pos hlt, if_neg hout, hcopy, host_beCpu]

/-- Where a round leaves, the two hosts do the same. -/
theorem fillStep_stop (h : o + minDirEntrySize ≤ v.blockSize → copyDirent v b size db o = none) :
    fillStep (v.host be) b size (o, db) = fillStep (v.host false) b size (o, db) := by
  rcases Nat.lt_or_ge o v.blockSize with ho | hend
  · have hlt : ∀ be, o < (v.host be).blockSize := fun _ => ho
    rcases Nat.lt_or_ge v.blockSize (o + minDirEntrySize) with hout | hin
    · have hout : ∀ be, (v.host be).blockSize < o + minDirEntrySize := fun _ => hout
      simp only [fillStep, if_pos (hlt _), if_pos (hout _)]
    · have hin' : ∀ be, ¬ (v.host be).blockSize < o + minDirEntrySize := fun _ => Nat.not_lt.mpr hin
      have hcopy : ∀ be, copyDirent (v.host be) b size db o = none := fun _ => h hin
      simp only [fillStep, if_pos (hlt _), if_neg (hin' _), hcopy]
      rfl
  · rw [fillStep_end hend, fillStep_end hend]

theorem fillStep_inl {t : Nat × DirentBuf} (h : fillStep (v.host be) b size (o, db) = .inl t) :
    o + minDirEntrySize ≤ v.blockSize ∧ ∃ db', copyDirent v b size db o = some db' ∧
      t = (nextPos be b o, db') := by
  rcases Nat.lt_or_ge o v.blockSize with ho | hend
  · have hlt : o < (v.host be).blockSize := ho
    rcases Nat.lt_or_ge v.blockSize (o + minDirEntrySize) with hout | hin
    · have hout : (v.host be).blockSize < o + minDirEntrySize := hout
      simp only [fillStep, if_pos hlt, if_pos hout] at h
      cases h
    · cases hcopy : copyDirent v b size db o with
      | some db' =>
        rw [fillStep_go hin hcopy] at h
        cases h
        exact ⟨hin, db', rfl, rfl⟩
      | none =>
        have hout : ¬ (v.host be).blockSize < o + minDirEntrySize := Nat.not_lt.mpr hin
        have hcopy : copyDirent (v.host be) b size db o = none := hcopy
        simp only [fillStep, if_pos hlt, if_neg hout, hcopy] at h
        split at h
        · cases h
        · cases h
  · rw [fillStep_end hend] at h
    cases h

/-- The walk comes to the records that the block alone says, on a little-endian host. -/
theorem fill_comes_iff {o₀ : Nat} {db₀ : DirentBuf} (t : Nat × DirentBuf) :
    Comes (fillStep (v.host false) b size) (o₀, db₀) t ↔ Copied v b size o₀ db₀ t.1 t.2 := by
  constructor
  · intro h
    induction h with
    | refl => exact .first
    | tail _ hstep ih =>
      obtain ⟨hin, db', hcopy, rfl⟩ := fillStep_inl hstep
      exact ih.next hin hcopy
  · obtain ⟨o, db⟩ := t
    intro h
    have hcopied : Copied v b size o₀ db₀ o db := h
    clear h
    induction hcopied with
    | first => exact .refl
    | next _ hin hcopy ih => exact ih.tail (fillStep_go hin hcopy)

/-- What is left of the block and of the buffer. -/
def fillLeft (v : Volume) (size : Nat) (t : Nat × DirentBuf) : Nat :=
  v.blockSize - t.1 + (size - t.2.position)

/-- A round makes less of the block and the buffer left, or is at a free record of length 0. -/
theorem fillStep_less {t : Nat × DirentBuf} (h : fillStep (v.host be) b size (o, db) = .inl t) :
    fillLeft v size t < fillLeft v size (o, db) ∨
      o + minDirEntrySize ≤ v.blockSize ∧ copyDirent v b size db o = some db ∧
        recLen false b o = 0 := by
  obtain ⟨hin, db', hcopy, rfl⟩ := fillStep_inl h
  have hge := nextPos_ge be b o
  rw [minDirEntrySize] at hin
  rw [fillLeft, fillLeft]
  simp only
  rcases copyDirent_less hcopy with ⟨-, rfl⟩ | hless
  · by_cases hlen : recLen false b o = 0
    · exact .inr ⟨hin, hcopy, hlen⟩
    · have hne : nextPos be b o ≠ o := fun h => hlen ((nextPos_stuck be b o).mp h)
      exact .inl (by omega)
  · exact .inl (by omega)

/-- From a free record of length 0 the walk never gets away. -/
theorem fill_stuck (hin : o + minDirEntrySize ≤ v.blockSize)
    (hcopy : copyDirent v b size db o = some db) (hlen : recLen false b o = 0)
    {t : Nat × DirentBuf} (h : Comes (fillStep (v.host be) b size) (o, db) t) : t = (o, db) := by
  induction h with
  | refl => rfl
  | tail _ hstep ih =>
    rw [ih, fillStep_go hin hcopy, (nextPos_stuck be b o).mpr hlen] at hstep
    cases hstep
    rfl

/-- The two hosts do the same in a round. -/
theorem fillStep_iff :
    fillStep (v.host false) b size (o, db) = fillStep (v.host true) b size (o, db) ↔
      (o + minDirEntrySize ≤ v.blockSize → ∀ db', copyDirent v b size db o = some db' →
        nextPos false b o = nextPos true b o) := by
  by_cases hgo : o + minDirEntrySize ≤ v.blockSize ∧ copyDirent v b size db o ≠ none
  · obtain ⟨db', hcopy⟩ := Option.ne_none_iff_exists'.mp hgo.2
    rw [fillStep_go hgo.1 hcopy, fillStep_go hgo.1 hcopy, Sum.inl.injEq, Prod.mk.injEq,
      and_iff_left rfl]
    exact ⟨fun h _ _ _ => h, fun h => h hgo.1 db' hcopy⟩
  · have hstop : o + minDirEntrySize ≤ v.blockSize → copyDirent v b size db o = none := by
      intro hin
      by_contra hne
      exact hgo ⟨hin, hne⟩
    refine iff_of_true (fillStep_stop hstop).symm fun hin db' hcopy => ?_
    rw [hstop hin] at hcopy
    cases hcopy

/-- `fill_dirent_buf` on both hosts. -/
theorem fill_iff : SameFill v b size o db ↔ EvenFill v b size o db := by
  have hn : fillLeft v size (o, db) < v.blockSize + size + 1 := by
    rw [fillLeft]
    simp only
    omega
  rw [SameFill, fillDirentBuf_eq_run, fillDirentBuf_eq_run]
  refine (same_iff ?_ ?_ hn).trans ?_
  · rintro ⟨o₁, db₁⟩ t h
    rcases fillStep_less h with hlt | ⟨hin, hcopy, hlen⟩
    · exact .inl hlt
    · refine .inr fun u hu => ?_
      rw [fill_stuck hin hcopy hlen hu, fillStep_go hin hcopy, fillStep_go hin hcopy,
        (nextPos_stuck false b o₁).mpr hlen, (nextPos_stuck true b o₁).mpr hlen]
  · rintro ⟨o₁, db₁⟩ t h
    rcases fillStep_less h with hlt | ⟨hin, hcopy, hlen⟩
    · exact .inl hlt
    · refine .inr ?_
      rw [fillStep_go hin hcopy, fillStep_go hin hcopy, (nextPos_stuck false b o₁).mpr hlen,
        (nextPos_stuck true b o₁).mpr hlen]
  · constructor
    · intro h o₁ db₁ db' hcopied hin hcopy
      exact fillStep_iff.mp (h (o₁, db₁) ((fill_comes_iff _).mpr hcopied)) hin db' hcopy
    · rintro h ⟨o₁, db₁⟩ ht
      exact fillStep_iff.mpr fun hin db' => h o₁ db₁ db' ((fill_comes_iff _).mp ht) hin

/-- A walk that is not full has come to the end of the block. -/
theorem fillStep_through {o' : Nat}
    (h : fillStep (v.host be) b size (o, db) = .inr (.ok (false, o', db'))) :
    v.blockSize ≤ o ∧ o' = o ∧ db' = db := by
  rcases Nat.lt_or_ge o v.blockSize with ho | hend
  · have hlt : o < (v.host be).blockSize := ho
    rcases Nat.lt_or_ge v.blockSize (o + minDirEntrySize) with hout | hin
    · have hout : (v.host be).blockSize < o + minDirEntrySize := hout
      simp only [fillStep, if_pos hlt, if_pos hout] at h
      cases h
    · cases hcopy : copyDirent v b size db o with
      | some db₁ =>
        rw [fillStep_go hin hcopy] at h
        cases h
      | none =>
        have hout : ¬ (v.host be).blockSize < o + minDirEntrySize := Nat.not_lt.mpr hin
        have hcopy : copyDirent (v.host be) b size db o = none := hcopy
        simp only [fillStep, if_pos hlt, if_neg hout, hcopy] at h
        split at h
        · cases h
        · cases h
  · rw [fillStep_end hend] at h
    cases h
    exact ⟨hend, rfl, rfl⟩

/-- Where `fill_dirent_buf` has come to the end of the block, on a little-endian host. -/
theorem fill_through_iff {o' : Nat} :
    fillDirentBuf (v.host false) b size (v.blockSize + size + 1) o db = .ok (false, o', db') ↔
      Copied v b size o db o' db' ∧ v.blockSize ≤ o' := by
  have hn : fillLeft v size (o, db) < v.blockSize + size + 1 := by
    rw [fillLeft]
    simp only
    omega
  rw [fillDirentBuf_eq_run]
  constructor
  · intro h
    obtain ⟨⟨o₁, db₁⟩, hcomes, hdone⟩ := done_of_run h fun h => nomatch h
    obtain ⟨hend, rfl, rfl⟩ := fillStep_through hdone
    exact ⟨(fill_comes_iff _).mp hcomes, hend⟩
  · rintro ⟨hcopied, hend⟩
    refine run_of_comes ?_ hn ((fill_comes_iff (o', db')).mpr hcopied) (fillStep_end hend)
    rintro ⟨o₁, db₁⟩ t h
    rcases fillStep_less h with hlt | ⟨hin, hcopy, hlen⟩
    · exact .inl hlt
    · refine .inr fun u hu => ?_
      rw [fill_stuck hin hcopy hlen hu]
      exact ⟨_, fillStep_go hin hcopy⟩

end Fill

/-! ## Reading a directory -/

/-- Where position `pos` lies in its block. -/
def inBlock (v : Volume) (pos : Nat) : Nat := pos - pos / v.blockSize * v.blockSize

/-- Reading a directory from `cookie` on comes to a position with a buffer. -/
inductive CameToPos (v : Volume) (blk : Nat → Buf) (odi : OndiskInode) (cookie size : Nat) :
    Nat → DirentBuf → Prop
  | first : CameToPos v blk odi cookie size cookie ⟨[], 0⟩
  | next {pos block o₁ o : Nat} {db db' : DirentBuf} (h : CameToPos v blk odi cookie size pos db)
      (hb : BlockOf v blk odi pos block) (hseek : SeekTo v (blk block) (inBlock v pos) o₁)
      (hcopied : Copied v (blk block) size o₁ db o db') (hend : v.blockSize ≤ o) :
      CameToPos v blk odi cookie size (pos / v.blockSize * v.blockSize + o) db'

/-- Every record on the way of reading a directory leads to the same place on both hosts. -/
def EvenDirents (v : Volume) (blk : Nat → Buf) (odi : OndiskInode) (cookie size : Nat) : Prop :=
  ∀ pos db block, CameToPos v blk odi cookie size pos db → BlockOf v blk odi pos block →
    EvenSeek v (blk block) (inBlock v pos) ∧
      ∀ o, SeekTo v (blk block) (inBlock v pos) o → EvenFill v (blk block) size o db

/-- `get_dirents` goes through the same positions and the same records on both hosts. -/
structure SameDirentsWalk (v : Volume) (blk : Nat → Buf) (odi : OndiskInode) (cookie size : Nat) :
    Prop where
  positions : walkedDirents (v.host false) blk odi cookie size =
    walkedDirents (v.host true) blk odi cookie size
  seeks : ∀ pos db block, (pos, db) ∈ walkedDirents (v.host false) blk odi cookie size →
    BlockOf v blk odi pos block → SameSeek v (blk block) (inBlock v pos)
  fills : ∀ pos db block o, (pos, db) ∈ walkedDirents (v.host false) blk odi cookie size →
    BlockOf v blk odi pos block → SeekTo v (blk block) (inBlock v pos) o →
      SameFill v (blk block) size o db

section Dirents

variable {v : Volume} {blk : Nat → Buf} {odi : OndiskInode} {cookie size pos : Nat} {db : DirentBuf}

theorem inBlock_lt (v : Volume) (pos : Nat) : v.blockSize = 0 ∨ inBlock v pos < v.blockSize := by
  rcases Nat.eq_zero_or_pos v.blockSize with hz | hbs
  · exact .inl hz
  · have hdiv := Nat.div_add_mod' pos v.blockSize
    have hmod := Nat.mod_lt pos hbs
    rw [inBlock]
    exact .inr (by omega)

/-- One round where the directory has a block. -/
theorem direntsStep_at (be : Bool) {block : Nat} (hb : BlockOf v blk odi pos block) :
    direntsStep (v.host be) blk odi size (pos, db) =
      match seekToValidDirent (v.host be) (blk block) (inBlock v pos) with
      | .error e => .inr (.error e)
      | .ok none => .inl (pos / v.blockSize * v.blockSize + v.blockSize, db)
      | .ok (some o) =>
        match fillDirentBuf (v.host be) (blk block) size (v.blockSize + size + 1) o db with
        | .error e => .inr (.error e)
        | .ok (true, o, db) => .inr (.ok (pos / v.blockSize * v.blockSize + o, db))
        | .ok (false, o, db) => .inl (pos / v.blockSize * v.blockSize + o, db) := by
  obtain ⟨hpos, hmap, hne⟩ := hb
  rw [← readMapEntry_host v be] at hmap
  rw [direntsStep, if_pos hpos]
  simp only [hmap, if_neg hne]
  rfl

/-- One round where it has none. -/
theorem direntsStep_none (be : Bool) (h : ∀ block, ¬ BlockOf v blk odi pos block) :
    (∀ t, direntsStep (v.host be) blk odi size (pos, db) ≠ .inl t) ∧
      direntsStep (v.host be) blk odi size (pos, db) =
        direntsStep (v.host false) blk odi size (pos, db) := by
  simp only [direntsStep, readMapEntry_host v be]
  split
  next hpos =>
    have hhole : readMapEntry (v.host false) blk odi pos = noBlock := by
      by_contra hne
      exact h _ ⟨hpos, rfl, hne⟩
    simp only [hhole, if_true]
    exact ⟨fun t ht => (nomatch ht), trivial⟩
  next => exact ⟨fun t ht => (nomatch ht), rfl⟩

/-- A round to the next position goes through a block, on a little-endian host. -/
theorem direntsStep_iff (t : Nat × DirentBuf) :
    direntsStep (v.host false) blk odi size (pos, db) = .inl t ↔
      ∃ block o₁ o db', BlockOf v blk odi pos block ∧ SeekTo v (blk block) (inBlock v pos) o₁ ∧
        Copied v (blk block) size o₁ db o db' ∧ v.blockSize ≤ o ∧
          t = (pos / v.blockSize * v.blockSize + o, db') := by
  constructor
  · intro h
    by_cases hblock : ∃ block, BlockOf v blk odi pos block
    · obtain ⟨block, hb⟩ := hblock
      rw [direntsStep_at false hb] at h
      cases hseek : seekToValidDirent (v.host false) (blk block) (inBlock v pos) with
      | error e =>
        rw [hseek] at h
        cases h
      | ok r =>
        obtain ⟨o₁, rfl, ho₁⟩ := (seek_found_iff (inBlock_lt v pos) r).mp hseek
        simp only [hseek] at h
        cases hfill : fillDirentBuf (v.host false) (blk block) size (v.blockSize + size + 1) o₁ db with
        | error e =>
          simp only [hfill] at h
          cases h
        | ok r =>
          obtain ⟨full, o, db'⟩ := r
          simp only [hfill] at h
          cases full with
          | true => cases h
          | false =>
            cases h
            obtain ⟨hcopied, hend⟩ := fill_through_iff.mp hfill
            exact ⟨block, o₁, o, db', hb, ho₁, hcopied, hend, rfl⟩
    · exact absurd h ((direntsStep_none false fun block hb => hblock ⟨block, hb⟩).1 t)
  · rintro ⟨block, o₁, o, db', hb, hseek, hcopied, hend, rfl⟩
    have hfound := (seek_found_iff (inBlock_lt v pos) (some o₁)).mpr ⟨o₁, rfl, hseek⟩
    have hfill := fill_through_iff.mpr ⟨hcopied, hend⟩
    rw [direntsStep_at false hb]
    simp only [hfound, hfill]

/-- The two hosts do the same in a round where they seek and copy alike. -/
theorem direntsStep_same
    (hseek : ∀ block, BlockOf v blk odi pos block → SameSeek v (blk block) (inBlock v pos))
    (hfill : ∀ block o, BlockOf v blk odi pos block → SeekTo v (blk block) (inBlock v pos) o →
      SameFill v (blk block) size o db) :
    direntsStep (v.host false) blk odi size (pos, db) =
      direntsStep (v.host true) blk odi size (pos, db) := by
  by_cases hblock : ∃ block, BlockOf v blk odi pos block
  · obtain ⟨block, hb⟩ := hblock
    have hfound : seekToValidDirent (v.host false) (blk block) (inBlock v pos) =
        seekToValidDirent (v.host true) (blk block) (inBlock v pos) := by
      unfold seekToValidDirent
      simp only [host_blockSize, (hseek block hb).2]
      rfl
    rw [direntsStep_at false hb, direntsStep_at true hb, ← hfound]
    cases hr : seekToValidDirent (v.host false) (blk block) (inBlock v pos) with
    | error e => rfl
    | ok r =>
      obtain ⟨o, rfl, ho⟩ := (seek_found_iff (inBlock_lt v pos) r).mp hr
      simp only [(hfill block o hb ho).2]
  · exact (direntsStep_none true fun block hb => hblock ⟨block, hb⟩).2.symm

/-- Reading comes to the positions that the directory alone says, on a little-endian host. -/
theorem dirents_comes_iff (t : Nat × DirentBuf) :
    Comes (direntsStep (v.host false) blk odi size) (cookie, ⟨[], 0⟩) t ↔
      CameToPos v blk odi cookie size t.1 t.2 := by
  constructor
  · intro h
    induction h with
    | refl => exact .first
    | @tail u w _ hstep ih =>
      obtain ⟨block, o₁, o, db', hb, hseek, hcopied, hend, rfl⟩ := (direntsStep_iff w).mp hstep
      exact ih.next hb hseek hcopied hend
  · obtain ⟨pos, db⟩ := t
    intro h
    have hcame : CameToPos v blk odi cookie size pos db := h
    clear h
    induction hcame with
    | first => exact .refl
    | next _ hb hseek hcopied hend ih =>
      exact ih.tail ((direntsStep_iff _).mpr ⟨_, _, _, _, hb, hseek, hcopied, hend, rfl⟩)

/-- `get_dirents` on both hosts. -/
theorem getDirents_host_iff :
    SameDirentsWalk v blk odi cookie size ∧
        getDirents (v.host false) blk odi cookie size = getDirents (v.host true) blk odi cookie size ↔
      EvenDirents v blk odi cookie size := by
  constructor
  · rintro ⟨hwalk, -⟩ pos db block hpos hb
    rcases Nat.eq_zero_or_pos v.blockSize with hz | hbs
    · refine ⟨fun o _ hin => ?_, fun o ho => ?_⟩
      · rw [hz, minDirEntrySize] at hin
        omega
      · have hin := ho.2.1
        rw [hz, minDirEntrySize] at hin
        omega
    -- each turn of the loop goes on to a later block, so every place that it comes to is
    -- visited
    have hless : ∀ u t : Nat × DirentBuf, direntsStep (v.host false) blk odi size u = .inl t →
        odi.size.toNat - t.1 < odi.size.toNat - u.1 := by
      rintro ⟨p, d⟩ t h
      obtain ⟨block, o₁, o, db', hb, -, -, hend, rfl⟩ := (direntsStep_iff t).mp h
      have hp := hb.1
      have hdiv := Nat.div_add_mod' p v.blockSize
      have hmod := Nat.mod_lt p hbs
      simp only
      omega
    have hmem := mem_of_comes hless (Nat.lt_succ_of_le (Nat.sub_le _ _))
      ((dirents_comes_iff (pos, db)).mpr hpos)
    exact ⟨(seek_iff (inBlock_lt v pos)).mp (hwalk.seeks pos db block hmem hb),
      fun o ho => fill_iff.mp (hwalk.fills pos db block o hmem hb ho)⟩
  · intro h
    have hseek : ∀ pos db block, CameToPos v blk odi cookie size pos db →
        BlockOf v blk odi pos block → SameSeek v (blk block) (inBlock v pos) :=
      fun pos db block hpos hb => (seek_iff (inBlock_lt v pos)).mpr (h pos db block hpos hb).1
    have hfill : ∀ pos db block o, CameToPos v blk odi cookie size pos db →
        BlockOf v blk odi pos block → SeekTo v (blk block) (inBlock v pos) o →
          SameFill v (blk block) size o db :=
      fun pos db block o hpos hb ho => fill_iff.mpr ((h pos db block hpos hb).2 o ho)
    -- where both hosts seek and fill alike, they make the same steps
    have hsteps : ∀ t, Comes (direntsStep (v.host false) blk odi size) (cookie, ⟨[], 0⟩) t →
        direntsStep (v.host false) blk odi size t = direntsStep (v.host true) blk odi size t := by
      rintro ⟨pos, db⟩ ht
      have hpos := (dirents_comes_iff _).mp ht
      exact direntsStep_same (fun block => hseek pos db block hpos)
        fun block o => hfill pos db block o hpos
    obtain ⟨hvisited, hrun⟩ := visited_congr hsteps (odi.size.toNat + 1)
    refine ⟨⟨hvisited, fun pos db block ht => ?_, fun pos db block o ht => ?_⟩, ?_⟩
    · exact hseek pos db block ((dirents_comes_iff _).mp (comes_of_mem ht))
    · exact hfill pos db block o ((dirents_comes_iff _).mp (comes_of_mem ht))
    · unfold getDirents
      rw [getDirentsLoop_eq_run, getDirentsLoop_eq_run, hrun]

end Dirents

/-! ## Every operation -/

/-- A record in memory with the members of `mem`, as a host of that byte order has it. -/
def hostRecord (be : Bool) (as : List Assign) (mem : Buf) : Buf := copyMembers be as mem 0 mem 0

/-- The group descriptors in memory with the members of `mem`. -/
def hostGroups (be : Bool) (mem : Buf) (ngroups : Nat) : Buf :=
  copyGroupDescriptors be mem mem ngroups

/-- What goes by members of the disk of more than one byte: the functions on the
directory or file in cache slot `i`, those on a bitmap block, those on the block
pointers and inodes, and the copies of the superblock and the group descriptors from
the disk to memory and from there to the disk. -/
inductive DiskOp where
  | lookupDir (i : Nat) (name : List UInt8)
  | isDirEmpty (i : Nat)
  | direntEnter (i : Nat) (name : List UInt8) (ino : Nat) (mode : UInt16)
  | direntDelete (i : Nat) (name : List UInt8)
  | getDirents (i cookie size : Nat)
  | allocBit (block maxBits startWord : Nat)
  | clearBit (block index : Nat)
  | readMapEntry (i position : Nat)
  | writeIndirectBlockEntry (block index newBlock : Nat)
  | readInode (i : Nat)
  | writeInode (i : Nat)
  | superCopyFrom (disk : Buf)
  | superCopyTo (disk mem : Buf)
  | gdCopyFrom (disk : Buf) (o : Nat)
  | gdCopyTo (disk mem : Buf) (ngroups : Nat)

/-- The operation walks the same records, gives the same result and leaves the same
bytes on both kinds of host. A call that is refused at once walks nothing. -/
def DiskOp.Agree (v : Volume) (env : Env) (s : Fs) : DiskOp → Prop
  | .lookupDir i name =>
    (name.length ≤ nameMax → SameLookupWalk v s.blk (s.slot i).odi name) ∧
      Ext2.lookupDir (v.host false) s.blk (s.slot i).odi name =
        Ext2.lookupDir (v.host true) s.blk (s.slot i).odi name
  | .isDirEmpty i =>
    SameEmptyWalk v s.blk (s.slot i).odi ∧
      Ext2.isDirEmpty (v.host false) s.blk (s.slot i).odi =
        Ext2.isDirEmpty (v.host true) s.blk (s.slot i).odi
  | .direntEnter i name ino mode =>
    (name.length ≤ nameMax →
      SameEnterWalk v s.blk (s.slot i).odi (dirEntrySize name.length)) ∧
      Ext2.direntEnter (v.host false) env s i name ino mode =
        Ext2.direntEnter (v.host true) env s i name ino mode
  | .direntDelete i name =>
    (name.length ≤ nameMax → SameDeleteWalk v s.blk (s.slot i).odi name) ∧
      Ext2.direntDelete (v.host false) env s i name = Ext2.direntDelete (v.host true) env s i name
  | .getDirents i cookie size =>
    (cookie % 4 = 0 → SameDirentsWalk v s.blk (s.slot i).odi cookie size) ∧
      Ext2.getDirents (v.host false) s.blk (s.slot i).odi cookie size =
        Ext2.getDirents (v.host true) s.blk (s.slot i).odi cookie size
  | .allocBit block maxBits startWord =>
    Ext2.allocBit false v.blockSize (s.blk block) maxBits startWord =
      Ext2.allocBit true v.blockSize (s.blk block) maxBits startWord
  | .clearBit block index =>
    Ext2.clearBit false v.blockSize (s.blk block) index =
      Ext2.clearBit true v.blockSize (s.blk block) index
  | .readMapEntry i position =>
    Ext2.readMapEntry (v.host false) s.blk (s.slot i).odi position =
      Ext2.readMapEntry (v.host true) s.blk (s.slot i).odi position
  | .writeIndirectBlockEntry block index newBlock =>
    Ext2.writeIndirectBlockEntry false (s.blk block) index newBlock =
      Ext2.writeIndirectBlockEntry true (s.blk block) index newBlock
  | .readInode i => Ext2.readInode (v.host false) s i = Ext2.readInode (v.host true) s i
  | .writeInode i => Ext2.writeInode (v.host false) env s i = Ext2.writeInode (v.host true) env s i
  | .superCopyFrom disk => superCopy false disk = superCopy true disk
  | .superCopyTo disk mem =>
    copyMembers false superAssigns disk 0 (hostRecord false superAssigns mem) 0 =
      copyMembers true superAssigns disk 0 (hostRecord true superAssigns mem) 0
  | .gdCopyFrom disk o => gdCopy false disk o = gdCopy true disk o
  | .gdCopyTo disk mem ngroups =>
    copyGroupDescriptors false disk (hostGroups false mem ngroups) ngroups =
      copyGroupDescriptors true disk (hostGroups true mem ngroups) ngroups

/-- The condition for it. Every record that the operation goes past leads to the same
place on both hosts, and a name is entered into a free record, never into one split
off; a bitmap has no clear bit to take, or no set bit to clear, in either order of its
bytes. -/
def DiskOp.Even (v : Volume) (s : Fs) : DiskOp → Prop
  | .lookupDir i name | .direntDelete i name =>
    name.length ≤ nameMax →
      EvenDir v s.blk (s.slot i).odi (fun block => Skips v name (s.blk block)) fun _ _ => True
  | .isDirEmpty i =>
    EvenDir v s.blk (s.slot i).odi (fun block => SkipsDots v (s.blk block)) fun _ _ => True
  | .direntEnter i name _ _ =>
    name.length ≤ nameMax →
      EvenDir v s.blk (s.slot i).odi (fun block => Tight (dirEntrySize name.length) (s.blk block))
        fun block o => Reused (dirEntrySize name.length) (s.blk block) o ∨ NoSplit v (s.blk block) o
  | .getDirents i cookie size => cookie % 4 = 0 → EvenDirents v s.blk (s.slot i).odi cookie size
  | .allocBit block maxBits startWord =>
    FullFrom false v.blockSize (s.blk block) maxBits startWord ∧
      FullFrom true v.blockSize (s.blk block) maxBits startWord
  | .clearBit block index =>
    4 * (index / 32) + 4 ≤ v.blockSize →
      bitAt false (s.blk block) index = false ∧ bitAt true (s.blk block) index = false
  | .readMapEntry _ _ | .writeIndirectBlockEntry _ _ _ | .readInode _ | .writeInode _ => True
  | .superCopyFrom _ | .superCopyTo _ _ | .gdCopyFrom _ _ | .gdCopyTo _ _ _ => True

section Operations

variable (v : Volume) (env : Env) (s : Fs)

/-- The result of `dirent_enter` goes by that of its search. -/
theorem direntEnter_host {i ino : Nat} {name : List UInt8} {mode : UInt16}
    (h : name.length ≤ nameMax →
      findSpace (v.host false) s.blk (s.slot i).odi (dirEntrySize name.length) =
        findSpace (v.host true) s.blk (s.slot i).odi (dirEntrySize name.length)) :
    direntEnter (v.host false) env s i name ino mode =
      direntEnter (v.host true) env s i name ino mode := by
  unfold direntEnter
  split
  · rfl
  next hname =>
    rw [h (by omega)]
    simp only [enterDirent_host v true]

/-- The result of `dirent_delete` goes by that of its search. -/
theorem direntDelete_host {i : Nat} {name : List UInt8}
    (h : name.length ≤ nameMax → findAndDelete (v.host false) s.blk (s.slot i).odi name =
      findAndDelete (v.host true) s.blk (s.slot i).odi name) :
    direntDelete (v.host false) env s i name = direntDelete (v.host true) env s i name := by
  unfold direntDelete
  split
  · rfl
  next hname =>
    rw [h (by omega)]
    simp only [deleteDirEntry_host v true]

/-- `super_copy` from the disk. -/
theorem superCopy_host (be : Bool) (disk : Buf) : superCopy be disk = superCopy false disk := by
  simp only [superCopy, bswap2_ld16, bswap4_ld32]

/-- `gd_copy` from the disk. -/
theorem gdCopy_host (be : Bool) (disk : Buf) (o : Nat) : gdCopy be disk o = gdCopy false disk o := by
  simp only [gdCopy, bswap2_ld16, bswap4_ld32]

/-- `super_copy` to the disk leaves the members in little-endian order. -/
theorem superCopyTo_host (be : Bool) (disk mem : Buf) :
    copyMembers be superAssigns disk 0 (hostRecord be superAssigns mem) 0 =
      copyMembers false superAssigns disk 0 mem 0 := by
  unfold hostRecord
  rw [copyMembers_eq, copyMembers_eq, copyMembers_eq]
  exact copyAll_through superAssigns_apart disk mem mem 0 0 0

/-- `copy_group_descriptors` gives the same on both hosts. -/
theorem gdCopyTo_host (be : Bool) (disk mem : Buf) (ngroups : Nat) :
    copyGroupDescriptors be disk (hostGroups be mem ngroups) ngroups =
      copyGroupDescriptors false disk mem ngroups := by
  unfold hostGroups
  rw [copyGroupDescriptors_eq, copyGroupDescriptors_eq, copyGroupDescriptors_eq]
  exact copyAll_through (arrayMembers_apart gdAssigns_apart (by decide)) disk mem mem 0 0 0

end Operations

/-- A walk that is only made under a condition. -/
theorem guarded_iff {p walk result even : Prop} (h : p → (walk ∧ result ↔ even))
    (hrefused : ¬ p → result) : (p → walk) ∧ result ↔ (p → even) := by
  by_cases hp : p
  · rw [forall_prop_of_true hp, forall_prop_of_true hp]
    exact h hp
  · exact iff_of_true ⟨fun h => absurd h hp, hrefused hp⟩ fun h => absurd h hp

/-- Every operation does the same on both kinds of host exactly when its condition holds. -/
theorem hosts_agree_iff (v : Volume) (env : Env) (s : Fs) (op : DiskOp) :
    op.Agree v env s ↔ op.Even v s := by
  cases op with
  | lookupDir i name =>
    refine guarded_iff (lookupDir_host_iff v s.blk (s.slot i).odi name) fun hlong => ?_
    rw [lookupDir, lookupDir, if_pos (by omega), if_pos (by omega)]
  | isDirEmpty i => exact isDirEmpty_host_iff v s.blk (s.slot i).odi
  | direntEnter i name ino mode =>
    refine guarded_iff (fun hname => ?_) fun hlong => direntEnter_host v env s fun h => absurd h hlong
    rw [and_iff_left_of_imp fun h => direntEnter_host v env s fun _ => h.2]
    exact findSpace_host_iff v s.blk (s.slot i).odi (dirEntrySize name.length)
  | direntDelete i name =>
    refine guarded_iff (fun hname => ?_) fun hlong => direntDelete_host v env s fun h => absurd h hlong
    rw [and_iff_left_of_imp fun h => direntDelete_host v env s fun _ => h.2]
    exact findAndDelete_host_iff v s.blk (s.slot i).odi name
  | getDirents i cookie size =>
    refine guarded_iff (fun _ => getDirents_host_iff) fun hodd => ?_
    rw [getDirents, getDirents, if_pos hodd, if_pos hodd]
  | allocBit block maxBits startWord => exact allocBit_host_iff _ _ _ _
  | clearBit block index => exact clearBit_host_iff _ _ _
  | readMapEntry i position => exact iff_of_true (readMapEntry_host v true _ _ _).symm trivial
  | writeIndirectBlockEntry block index newBlock =>
    exact iff_of_true (st32_bswap4 true _ _ _).symm trivial
  | readInode i => exact iff_of_true (readInode_host v true s i).symm trivial
  | writeInode i => exact iff_of_true (writeInode_host v true env s i).symm trivial
  | superCopyFrom disk => exact iff_of_true (superCopy_host true disk).symm trivial
  | superCopyTo disk mem =>
    exact iff_of_true ((superCopyTo_host false disk mem).trans (superCopyTo_host true disk mem).symm)
      trivial
  | gdCopyFrom disk o => exact iff_of_true (gdCopy_host true disk o).symm trivial
  | gdCopyTo disk mem ngroups =>
    exact iff_of_true
      ((gdCopyTo_host false disk mem ngroups).trans (gdCopyTo_host true disk mem ngroups).symm)
      trivial

/-- The root directory of the small volume: a little-endian host finds "..", a
big-endian one takes the first record for 3072 bytes long. -/
theorem hosts_disagree : ¬ ∀ (v : Volume) (env : Env) (s : Fs) (op : DiskOp), op.Agree v env s := by
  intro h
  have hsame := (h sampleVolume sampleEnv
    (sampleFs.setSlot 0 { emptySlot with odi := diskInode sampleVolume sampleFs rootIno })
    (.lookupDir 0 [0x2E, 0x2E])).2
  have hfound := congrArg (fun r => (r.toOption.bind Except.toOption).getD noEntry) hsame
  exact absurd hfound (by decide)

end Cheviot.Ext2
