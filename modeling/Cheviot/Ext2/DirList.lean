import Cheviot.Ext2.DirMap
import Cheviot.Ext2.Ops
import Mathlib.Algebra.GroupWithZero.Nat

/-!
# What `get_dirents` puts into its buffer

`ext2_readdir` sends as many bytes as `get_dirents` says it has put into `readdir_buf`.
A sequence of calls, each from where the one before has stopped, lists a directory.

* `fillDirentBuf_holds`, `getDirentsLoop_holds` — the bytes counted are those of the
  entries in the buffer, and are never more than the buffer has room for.
* `readdir_sends_iff` — a request sends what is in the buffer, unless its offset is not
  that of a record: then it sends what `-ENOENT` is as a `size_t`.
* `getDirents_page` — one call takes the entries that fit off the front of the list.
* `readdirCalls_list` — the calls together give each live entry once, whatever the sizes
  of the buffers.

Mirroring notes:
- `size_t` and `ssize_t` are the 32-bit types of the target.
- A directory is no larger than `MAX_FILE_POS`, so that its positions are not negative as
  an `off_t`.
-/

namespace Cheviot.Ext2

open Cheviot.Bytes Cheviot.Rows Cheviot.Run

/-! ## The functions -/

/-- `ENOENT`. -/
def enoentNr : Int := 2

/-- An `ssize_t` as a `size_t`. -/
def sizeT (n : Int) : Nat := (n % 2 ^ 32).toNat

/-- `get_dirents`: the cookie it leaves behind, what it returns, and the buffer. -/
def getDirentsBuf (v : Volume) (blk : Nat → Buf) (odi : OndiskInode) (cookie size : Nat) :
    Except Fault (Nat × Int × DirentBuf) :=
  if cookie % 4 ≠ 0 then .ok (cookie, -enoentNr, ⟨[], 0⟩)
  else do
    let (pos, db) ← getDirentsLoop v blk odi size (odi.size.toNat + 1) cookie ⟨[], 0⟩
    return (pos, db.position, db)

/-- `ext2_readdir` up to `writemsg`: the number of bytes it asks it to send, if it is
called, and the buffer. The offset is cut down to an `off_t`. -/
def readdirSends (v : Volume) (s : Fs) (ino offset sz : Nat) :
    Except Fault (Option Nat × DirentBuf) := do
  let (s, dirInode) ← getInode v s ino
  match dirInode with
  | none => return (none, ⟨[], 0⟩)
  | some dir =>
    let direntsSz := min readdirBufSize sz
    let (_, ret, db) ← getDirentsBuf v s.blk (s.slot dir).odi (offset % 2 ^ 32) direntsSz
    let direntsReadSz := sizeT ret
    return (if 0 < direntsReadSz then some direntsReadSz else none, db)

/-- What a reply is made of is what `get_dirents` has done. -/
theorem getDirents_eq (v : Volume) (blk : Nat → Buf) (odi : OndiskInode) (cookie size : Nat) :
    getDirents v blk odi cookie size = (getDirentsBuf v blk odi cookie size).map fun r =>
      if r.2.1 < 0 then .error .enoent else .ok (r.1, r.2.2.entries) := by
  unfold getDirents getDirentsBuf
  split
  · rfl
  · cases getDirentsLoop v blk odi size (odi.size.toNat + 1) cookie ⟨[], 0⟩ with
    | error e => rfl
    | ok r =>
      have hpos : ¬ (r.2.position : Int) < 0 := by omega
      show Except.ok (Except.ok (r.1, r.2.entries)) = Except.ok
        (if (r.2.position : Int) < 0 then .error .enoent else .ok (r.1, r.2.entries))
      rw [if_neg hpos]

/-! ## The bytes in the buffer -/

/-- The bytes that entries take in the buffer. -/
def direntsSize (v : Volume) (es : List Dirent) : Nat :=
  (es.map fun e => direntReclen v e.name.length).sum

/-- The count of a buffer is that of its entries, which are not more than fit. -/
structure DirentBuf.Holds (v : Volume) (size : Nat) (db : DirentBuf) : Prop where
  position_eq : db.position = direntsSize v db.entries
  position_le : db.position ≤ size

section Buffer

variable {v : Volume} {size : Nat} {db : DirentBuf}

theorem DirentBuf.Holds.empty : DirentBuf.Holds v size ⟨[], 0⟩ := ⟨rfl, Nat.zero_le _⟩

theorem direntsSize_append (es es' : List Dirent) :
    direntsSize v (es ++ es') = direntsSize v es + direntsSize v es' := by
  unfold direntsSize
  rw [List.map_append, List.sum_append]

theorem direntReclen_pos (v : Volume) (n : Nat) : 0 < direntReclen v n := by
  unfold direntReclen
  omega

theorem direntBufAdd_holds (h : db.Holds v size) {e : Dirent} {db' : DirentBuf}
    (hadd : direntBufAdd v db size e = some db') : db'.Holds v size := by
  unfold direntBufAdd at hadd
  dsimp only at hadd
  split at hadd
  next hfit =>
    cases hadd
    refine ⟨?_, hfit⟩
    rw [direntsSize_append, ← h.position_eq]
    rfl
  · cases hadd

theorem fillDirentBuf_holds (b : Buf) (fuel : Nat) : ∀ (o : Nat) (db : DirentBuf),
    db.Holds v size → Ends (fillDirentBuf v b size fuel o db) fun r => r.2.2.Holds v size := by
  induction fuel with
  | zero => exact fun _ _ _ => .error _
  | succ fuel ih =>
    intro o db h
    unfold fillDirentBuf
    split
    · split
      · exact .error _
      · split
        · dsimp only
          cases hadd : direntBufAdd v db size ⟨(bswap4 v.beCpu (dIno v.beCpu b o)).toNat,
              getBytes b (o + minDirEntrySize) (nameLen b o)⟩ with
          | none => exact .ok h
          | some db' =>
            dsimp only
            split
            · exact .error _
            · exact ih _ db' (direntBufAdd_holds h hadd)
        · exact ih _ db h
    · exact .ok h

theorem getDirentsLoop_holds (blk : Nat → Buf) (odi : OndiskInode) (fuel : Nat) :
    ∀ (pos : Nat) (db : DirentBuf), db.Holds v size →
      Ends (getDirentsLoop v blk odi size fuel pos db) fun r => r.2.Holds v size := by
  induction fuel with
  | zero => exact fun _ _ _ => .error _
  | succ fuel ih =>
    intro pos db h
    unfold getDirentsLoop
    split
    · dsimp only
      split
      · exact .error _
      · refine .bind (P := fun _ => True) (fun _ _ => trivial) fun r _ => ?_
        match r with
        | none => exact ih _ db h
        | some o =>
          refine .bind (fillDirentBuf_holds _ _ o db h) fun r hr => ?_
          obtain ⟨full, o, db⟩ := r
          dsimp only
          split
          · exact .pure hr
          · exact ih _ db hr
    · exact .ok h

end Buffer

/-! ## What a request sends -/

/-- A request sends no more than there is room for, and just what `get_dirents` has put
into the buffer. -/
def SendsFilled (v : Volume) (s : Fs) (ino offset sz : Nat) : Prop :=
  ∀ len db, readdirSends v s ino offset sz = .ok (some len, db) →
    len ≤ min readdirBufSize sz ∧ len = direntsSize v db.entries

/-- A request sends what it should, unless its offset is not a multiple of 4. -/
theorem readdir_sends_iff (v : Volume) (s : Fs) (ino offset sz : Nat) :
    SendsFilled v s ino offset sz ↔
      ((∃ s' dir, getInode v s ino = .ok (s', some dir)) → offset % 4 = 0) := by
  have hmod : offset % 2 ^ 32 % 4 = offset % 4 := by omega
  constructor
  · intro h ⟨s', dir, hget⟩
    by_contra hne
    -- the error of `get_dirents` goes into the length as a `size_t`
    have hsends : readdirSends v s ino offset sz = .ok (some (sizeT (-enoentNr)), ⟨[], 0⟩) := by
      unfold readdirSends
      rw [bind_of_ok hget]
      dsimp only
      rw [getDirentsBuf, if_pos (by rw [hmod]; exact hne)]
      rfl
    have hlen : (4294967294 : Nat) ≤ min readdirBufSize sz := (h _ _ hsends).1
    have hroom : readdirBufSize = 512 := rfl
    omega
  · intro h len db hsends
    obtain ⟨⟨s', dirInode⟩, hget, hrest⟩ := ok_of_bind hsends
    cases dirInode with
    | none => cases hrest
    | some dir =>
      obtain ⟨⟨cookie, ret, filled⟩, hbuf, hrest⟩ := ok_of_bind hrest
      unfold getDirentsBuf at hbuf
      rw [if_neg (by rw [hmod, h ⟨s', dir, hget⟩]; exact fun hne => hne rfl)] at hbuf
      obtain ⟨⟨pos, filled⟩, hloop, hbuf⟩ := ok_of_bind hbuf
      cases hbuf
      -- the records in the buffer are as long as the position says
      have hholds := getDirentsLoop_holds _ _ _ _ _ .empty _ hloop
      have hret : sizeT filled.position = filled.position := by
        have hle : filled.position ≤ min readdirBufSize sz := hholds.position_le
        have hroom : readdirBufSize = 512 := rfl
        unfold sizeT
        omega
      dsimp only at hrest
      rw [hret] at hrest
      split at hrest
      · cases hrest
        exact ⟨hholds.position_le, hholds.position_eq⟩
      · cases hrest

/-- At offset 1 of the root directory a request for 512 bytes sends almost 4 GiB. -/
theorem readdir_sends_error : ¬ SendsFilled sampleVolume sampleDirFs 2 1 512 := by
  have hsent : (readdirSends sampleVolume sampleDirFs 2 1 512).toOption =
      some (some 4294967294, ⟨[], 0⟩) := by decide +kernel
  intro h
  cases hrun : readdirSends sampleVolume sampleDirFs 2 1 512 with
  | error e =>
    rw [hrun] at hsent
    cases hsent
  | ok r =>
    rw [hrun] at hsent
    cases hsent
    exact absurd (h _ _ hrun).1 (by decide)

/-! ## Listing a directory -/

/-- A `struct dirent` in the buffer: the members before the name, as the host lays them
out, the name, and the zeros of `memset` that are left behind it. -/
def direntBytes (v : Volume) (members : Dirent → List UInt8) (e : Dirent) : List UInt8 :=
  members e ++ (e.name ++
    List.replicate (direntReclen v e.name.length - (v.direntNameOff + e.name.length)) 0)

/-- The bytes in the buffer. -/
def DirentBuf.bytes (v : Volume) (members : Dirent → List UInt8) (db : DirentBuf) : List UInt8 :=
  db.entries.flatMap (direntBytes v members)

/-- The entries of a row that are in use, as a client gets to see them. -/
def liveDirents (es : List Entry) : List Dirent :=
  (es.filter fun e => e.ino ≠ 0).map fun e => ⟨e.ino, e.name⟩

/-- The live entries of `n` blocks from block `k` on. -/
def liveFrom (rows : Nat → List Entry) (k n : Nat) : List Dirent :=
  (List.range' k n).flatMap fun j => liveDirents (rows j)

/-- `get_dirents` called with buffers of these sizes, each time with the cookie that the
call before has returned. -/
def readdirCalls (v : Volume) (blk : Nat → Buf) (odi : OndiskInode) :
    Nat → List Nat → Except Fault (List (Int × DirentBuf))
  | _, [] => .ok []
  | cookie, size :: sizes => do
    let (cookie, ret, db) ← getDirentsBuf v blk odi cookie size
    let outs ← readdirCalls v blk odi cookie sizes
    return (ret, db) :: outs

/-- The buffer with more entries. -/
def DirentBuf.addAll (v : Volume) (db : DirentBuf) (es : List Dirent) : DirentBuf :=
  ⟨db.entries ++ es, db.position + direntsSize v es⟩

section List

variable {v : Volume} {blk : Nat → Buf} {odi : OndiskInode} {rows : Nat → List Entry}

theorem direntsSize_cons (e : Dirent) (es : List Dirent) :
    direntsSize v (e :: es) = direntReclen v e.name.length + direntsSize v es := rfl

theorem DirentBuf.addAll_nil (db : DirentBuf) : db.addAll v [] = db := by
  unfold addAll
  rw [List.append_nil]
  rfl

theorem DirentBuf.addAll_addAll (db : DirentBuf) (es es' : List Dirent) :
    (db.addAll v es).addAll v es' = db.addAll v (es ++ es') := by
  unfold addAll
  rw [List.append_assoc, direntsSize_append, Nat.add_assoc]

theorem liveDirents_cons_live {e : Entry} (h : e.ino ≠ 0) (es : List Entry) :
    liveDirents (e :: es) = ⟨e.ino, e.name⟩ :: liveDirents es := by
  unfold liveDirents
  rw [List.filter_cons_of_pos (by simpa using h), List.map_cons]

theorem liveDirents_cons_free {e : Entry} (h : e.ino = 0) (es : List Entry) :
    liveDirents (e :: es) = liveDirents es := by
  unfold liveDirents
  rw [List.filter_cons_of_neg (by simpa using h)]

theorem liveFrom_succ (k n : Nat) :
    liveFrom rows k (n + 1) = liveDirents (rows k) ++ liveFrom rows (k + 1) n := by
  unfold liveFrom
  rw [List.range'_succ, List.flatMap_cons]

/-- The record that a position lies in. -/
theorem seekLoop_tiled (hbe : v.beCpu = false) {b : Buf} {e : Entry} {post : List Entry} {p : Nat}
    (hlo : e.off ≤ p) (hhi : p < e.off + e.len) :
    ∀ (pre : List Entry) (fuel lo : Nat), Tiled b lo v.blockSize (pre ++ e :: post) →
      v.blockSize - lo < fuel → seekLoop v b p fuel lo lo = .ok (e.off, e.off) := by
  intro pre
  induction pre with
  | nil =>
    intro fuel lo ht hfuel
    obtain ⟨fuel, rfl⟩ := Nat.exists_eq_succ_of_ne_zero (show fuel ≠ 0 by omega)
    have hoff : e.off = lo := ht.row.1
    have hmem : e ∈ [] ++ e :: post := List.mem_cons_self
    have hlen : recLen v.beCpu b lo = e.len := by
      rw [hbe, ← hoff]
      exact (ht.entry e hmem).len
    have hin := ht.bounds hmem
    have hpos := (ht.fits e hmem).pos
    have hmin : minDirEntrySize = 8 := rfl
    rw [seekLoop, if_neg (by omega), if_neg (by rw [hlen]; omega), hoff]
  | cons a pre ih =>
    intro fuel lo ht hfuel
    obtain ⟨fuel, rfl⟩ := Nat.exists_eq_succ_of_ne_zero (show fuel ≠ 0 by omega)
    obtain ⟨hoff, hpos, hrow⟩ := ht.row
    have hmem : a ∈ a :: (pre ++ e :: post) := List.mem_cons_self
    have hlen : recLen v.beCpu b lo = a.len := by
      rw [hbe, ← hoff]
      exact (ht.entry a hmem).len
    have hnext : nextPos v.beCpu b lo = lo + a.len := congrArg (lo + ·) (by
      rw [hbe, ← hoff]
      exact (ht.entry a hmem).len)
    have hina := ht.bounds hmem
    have hfit := (ht.fits a hmem).pos
    have hmin : minDirEntrySize = 8 := rfl
    -- the record looked for begins behind this one and ends in the block
    have hine := hrow.bounds (List.mem_append_right pre List.mem_cons_self)
    rw [seekLoop, if_neg (by omega), if_pos ⟨by rw [hlen]; omega, by rw [hnext]; omega⟩,
      if_neg (by rw [hlen]; omega), hlen, hnext]
    exact ih fuel (lo + a.len) ⟨hrow, fun x hx => ht.entry x (List.mem_cons_of_mem _ hx),
      fun x hx => ht.fits x (List.mem_cons_of_mem _ hx)⟩ (by omega)

/-- From a record on, either all entries in use of the rest of the block go into the
buffer, or those up to the first one that it has no room for. -/
theorem fillDirentBuf_tiled (hbe : v.beCpu = false) {b : Buf} {size : Nat} :
    ∀ (es : List Entry) (fuel lo : Nat) (db : DirentBuf), Tiled b lo v.blockSize es →
      v.blockSize - lo < fuel →
      fillDirentBuf v b size fuel lo db =
        .ok (false, v.blockSize, db.addAll v (liveDirents es)) ∨
      ∃ pre e post, es = pre ++ e :: post ∧ e.ino ≠ 0 ∧
        size < (db.addAll v (liveDirents pre)).position + direntReclen v e.name.length ∧
        fillDirentBuf v b size fuel lo db = .ok (true, e.off, db.addAll v (liveDirents pre)) := by
  intro es
  -- by the records that are left in the block
  induction es with
  | nil =>
    intro fuel lo db ht hfuel
    obtain ⟨fuel, rfl⟩ := Nat.exists_eq_succ_of_ne_zero (show fuel ≠ 0 by omega)
    have hlo : lo = v.blockSize := ht.row
    refine .inl ?_
    rw [fillDirentBuf, if_neg (by omega), hlo, show liveDirents [] = [] from rfl,
      DirentBuf.addAll_nil]
  | cons e es ih =>
    intro fuel lo db ht hfuel
    obtain ⟨fuel, rfl⟩ := Nat.exists_eq_succ_of_ne_zero (show fuel ≠ 0 by omega)
    obtain ⟨hoff, hpos, hrow⟩ := ht.row
    have hat := ht.entry e List.mem_cons_self
    have hin := ht.bounds List.mem_cons_self
    have hneed := e.need_ge
    have hmin : minDirEntrySize = 8 := rfl
    have hnext : nextPos v.beCpu b lo = lo + e.len := congrArg (lo + ·) (by
      rw [hbe, ← hoff]
      exact hat.len)
    have hrest : Tiled b (lo + e.len) v.blockSize es := ⟨hrow,
      fun x hx => ht.entry x (List.mem_cons_of_mem _ hx),
      fun x hx => ht.fits x (List.mem_cons_of_mem _ hx)⟩
    have hnext_ih := fun db' => ih fuel (lo + e.len) db' hrest (by omega)
    have hname : getBytes b (lo + minDirEntrySize) (nameLen b lo) = e.name := by
      rw [← hoff, nameLen, hat.nameLen, hat.name]
    have hino : (bswap4 v.beCpu (dIno v.beCpu b lo)).toNat = e.ino := by
      rw [hbe, ← hoff]
      exact hat.ino
    have hnlen : nameLen b lo = e.name.length := by rw [← hoff, nameLen, hat.nameLen]
    rw [fillDirentBuf, if_pos (by omega), if_neg (by omega)]
    by_cases h0 : e.ino = 0
    · -- a free record is gone past
      have hfree : ¬ dIno v.beCpu b lo ≠ 0 := by
        rw [hbe, ← hoff, dIno, hat.live_iff]
        exact not_not_intro h0
      rw [if_neg hfree, hnext, liveDirents_cons_free h0]
      rcases hnext_ih db with hrun | ⟨pre, x, post, hes, hx, hfull, hrun⟩
      · exact .inl hrun
      · refine .inr ⟨e :: pre, x, post, by rw [hes]; rfl, hx, ?_, ?_⟩
        · rwa [liveDirents_cons_free h0]
        · rwa [liveDirents_cons_free h0]
    · -- one in use goes into the buffer
      have hlive : dIno v.beCpu b lo ≠ 0 := by
        rw [hbe, ← hoff, dIno, hat.live_iff]
        exact h0
      rw [if_pos hlive]
      dsimp only
      rw [hname, hino, hnlen, direntBufAdd]
      dsimp only
      by_cases hfit : db.position + direntReclen v e.name.length ≤ size
      · have hadd : (⟨db.entries ++ [⟨e.ino, e.name⟩],
            db.position + direntReclen v e.name.length⟩ : DirentBuf) =
            db.addAll v [⟨e.ino, e.name⟩] := rfl
        rw [if_pos hfit, hadd]
        dsimp only
        rw [if_neg (by omega), hnext]
        have hcons : ∀ es', (db.addAll v [⟨e.ino, e.name⟩]).addAll v (liveDirents es') =
            db.addAll v (liveDirents (e :: es')) := by
          intro es'
          rw [DirentBuf.addAll_addAll, liveDirents_cons_live h0]
          rfl
        rcases hnext_ih (db.addAll v [⟨e.ino, e.name⟩]) with
          hrun | ⟨pre, x, post, hes, hx, hfull, hrun⟩
        · exact .inl (by rw [hrun, hcons])
        · refine .inr ⟨e :: pre, x, post, by rw [hes]; rfl, hx, ?_, ?_⟩
          · rwa [hcons] at hfull
          · rw [hrun, hcons]
      · -- or stays for the next call
        refine .inr ⟨[], e, es, rfl, h0, ?_, ?_⟩
        · rw [show liveDirents [] = [] from rfl, DirentBuf.addAll_nil]
          omega
        · rw [if_neg hfit, show liveDirents [] = [] from rfl, DirentBuf.addAll_nil, hoff]

/-- A cookie that stands for the rest of a directory: it is the place of a record, and
`rest` are the entries in use from there on, or it is the end. -/
inductive CookieAt (v : Volume) (size : Nat) (rows : Nat → List Entry) : Nat → List Dirent → Prop
  | done : CookieAt v size rows size []
  | record {k n : Nat} {pre post : List Entry} {e : Entry}
      (hk : (k + (n + 1)) * v.blockSize = size) (hrow : rows k = pre ++ e :: post) :
      CookieAt v size rows (k * v.blockSize + e.off)
        (liveDirents (e :: post) ++ liveFrom rows (k + 1) n)

/-- The start of a block. -/
theorem CookieAt.block (hbs : 0 < v.blockSize) {size k n : Nat}
    (hk : (k + n) * v.blockSize = size)
    (ht : DirRows v (byteAt v blk odi) size rows) :
    CookieAt v size rows (k * v.blockSize) (liveFrom rows k n) := by
  cases n with
  | zero =>
    rw [Nat.add_zero] at hk
    rw [hk]
    exact .done
  | succ n =>
    have hlt : k * v.blockSize < size := by
      rw [← hk]
      exact Nat.mul_lt_mul_of_pos_right (by omega) hbs
    have hrow := (ht k hlt).row
    cases hes : rows k with
    | nil =>
      rw [hes] at hrow
      have hzero : 0 = v.blockSize := hrow
      omega
    | cons e post =>
      rw [hes] at hrow
      have hoff : e.off = 0 := hrow.1
      have hat := CookieAt.record hk (show rows k = [] ++ e :: post from hes)
      rw [hoff, Nat.add_zero] at hat
      rw [liveFrom_succ, hes]
      exact hat

/-- The loop takes the entries that fit off the front of what the cookie stands for, and
stops at one that does not fit or at the end. -/
theorem getDirentsLoop_rows (hlog : v.logBlockSize ≤ 5) (hbe : v.beCpu = false)
    (hrows : DirRows v (byteAt v blk odi) odi.size.toNat rows) (size : Nat) :
    ∀ (fuel pos : Nat) (rest : List Dirent) (db : DirentBuf),
      CookieAt v odi.size.toNat rows pos rest → odi.size.toNat - pos < fuel →
      ∃ pos' taken rest', getDirentsLoop v blk odi size fuel pos db =
          .ok (pos', db.addAll v taken) ∧
        rest = taken ++ rest' ∧ CookieAt v odi.size.toNat rows pos' rest' ∧
        ∀ e es, rest' = e :: es →
          size < (db.addAll v taken).position + direntReclen v e.name.length := by
  have hbs := Volume.blockSize_bounds hlog
  intro fuel
  -- by the fuel, each round at the next block; a cookie says what is left
  induction fuel with
  | zero => exact fun _ _ _ _ h => absurd h (Nat.not_lt_zero _)
  | succ fuel ih =>
    intro pos rest db hat hfuel
    rw [getDirentsLoop]
    cases hat with
    | done =>
      rw [if_neg (Nat.lt_irrefl _)]
      exact ⟨_, [], [], by rw [DirentBuf.addAll_nil], rfl, .done, fun _ _ h => nomatch h⟩
    | @record k n pre post e hk hrow =>
      have hlt : k * v.blockSize < odi.size.toNat := by
        rw [← hk]
        exact Nat.mul_lt_mul_of_pos_right (by omega) (by omega)
      have hend := block_end_le hlog odi.size.toNat_lt hlt
      have hlast : (k + 1) * v.blockSize ≤ odi.size.toNat := by
        rw [← hk]
        exact Nat.mul_le_mul_right _ (by omega)
      rw [Nat.add_mul, Nat.one_mul] at hend hlast
      obtain ⟨hne, ht⟩ := hrows.block hlog hlt
      rw [hrow] at ht
      have hin := ht.bounds (List.mem_append_right pre List.mem_cons_self)
      have hpos := ht.row.cut.2.1
      have hbase : (k * v.blockSize + e.off) / v.blockSize * v.blockSize = k * v.blockSize := by
        rw [Nat.mul_comm k, Nat.mul_add_div (by omega), Nat.div_eq_of_lt (by omega), Nat.add_zero,
          Nat.mul_comm]
      have hread : readMapEntry v blk odi (k * v.blockSize + e.off) =
          readMapEntry v blk odi (k * v.blockSize) :=
        readMapEntry_block (by omega) (by omega)
      -- a cookie is the place of a record, where the search ends
      have hseek : seekToValidDirent v (blk (readMapEntry v blk odi (k * v.blockSize))) e.off =
          .ok (some e.off) := by
        unfold seekToValidDirent
        rw [bind_of_ok (seekLoop_tiled hbe (Nat.le_refl _) (by omega) pre _ 0 ht (by omega))]
        dsimp only
        rw [if_neg (by omega)]
        rfl
      have htail : Tiled (blk (readMapEntry v blk odi (k * v.blockSize))) e.off v.blockSize
          (e :: post) := by
        obtain ⟨mid, hpre, hpost⟩ := row_append.mp ht.row
        have hmid : e.off = mid := hpost.1
        subst hmid
        exact ⟨hpost, fun x hx => ht.entry x (List.mem_append_right _ hx),
          fun x hx => ht.fits x (List.mem_append_right _ hx)⟩
      rw [if_pos (by omega)]
      dsimp only
      rw [hbase, hread, if_neg hne, Nat.add_sub_cancel_left, bind_of_ok hseek]
      dsimp only
      rcases fillDirentBuf_tiled hbe (e :: post) (v.blockSize + size + 1) e.off db htail
        (by omega) with hrun | ⟨pre', x, post', hes, hx, hfull, hrun⟩
      · -- the block is done, and the next one begins a record or is the end
        have hnext : CookieAt v odi.size.toNat rows (k * v.blockSize + v.blockSize)
            (liveFrom rows (k + 1) n) := by
          have hblock := CookieAt.block (k := k + 1) (n := n) (by omega)
            (by rw [← hk, Nat.add_right_comm, Nat.add_assoc]) hrows
          rwa [Nat.add_mul, Nat.one_mul] at hblock
        obtain ⟨pos', taken, rest', hloop, hrest, hat', hstop⟩ :=
          ih _ _ (db.addAll v (liveDirents (e :: post))) hnext (by omega)
        rw [bind_of_ok hrun]
        refine ⟨pos', liveDirents (e :: post) ++ taken, rest', ?_, ?_, hat', ?_⟩
        · rw [← DirentBuf.addAll_addAll]
          exact hloop
        · rw [hrest, List.append_assoc]
        · rwa [← DirentBuf.addAll_addAll]
      · -- the buffer is full at the record `x`
        have hsplit : rows k = (pre ++ pre') ++ x :: post' := by
          rw [hrow, hes, List.append_assoc]
        rw [bind_of_ok hrun]
        refine ⟨_, liveDirents pre', _, rfl, ?_, .record hk hsplit, ?_⟩
        · rw [hes, ← List.append_assoc]
          refine congrArg (· ++ liveFrom rows (k + 1) n) ?_
          unfold liveDirents
          rw [List.filter_append, List.map_append]
        · intro y ys hy
          rw [liveDirents_cons_live hx] at hy
          have heq : (⟨x.ino, x.name⟩ : Dirent) = y := (List.cons.inj hy).1
          rw [← heq]
          exact hfull

/-- The cookie of a record is a multiple of 4. -/
theorem CookieAt.mod (hlog : v.logBlockSize ≤ 5)
    (hrows : DirRows v (byteAt v blk odi) odi.size.toNat rows)
    (hsize : odi.size.toNat % v.blockSize = 0) {pos : Nat} {rest : List Dirent}
    (h : CookieAt v odi.size.toNat rows pos rest) : pos % 4 = 0 := by
  have hbs := Volume.blockSize_bounds hlog
  have hdvd : 4 ∣ v.blockSize := by
    rw [Volume.blockSize_eq hlog]
    exact Dvd.dvd.mul_right (by decide) _
  cases h with
  | done => exact Nat.mod_eq_zero_of_dvd (hdvd.trans (Nat.dvd_of_mod_eq_zero hsize))
  | @record k n pre post e hk hrow =>
    have hlt : k * v.blockSize < odi.size.toNat := by
      rw [← hk]
      exact Nat.mul_lt_mul_of_pos_right (by omega) (by omega)
    have ht := hrows k hlt
    rw [hrow] at ht
    -- the records before it have lengths that are multiples of 4
    have hoff : ∀ (pre : List Entry) (lo : Nat), lo % 4 = 0 → (∀ x ∈ pre, x.Fits) →
        Row Entry.off Entry.len lo e.off pre → e.off % 4 = 0 := by
      intro pre
      induction pre with
      | nil =>
        intro lo hlo _ hr
        have : lo = e.off := hr
        omega
      | cons a pre ih =>
        intro lo hlo hfits hr
        have hlen := (hfits a List.mem_cons_self).1
        exact ih (lo + a.len) (by omega) (fun x hx => hfits x (List.mem_cons_of_mem _ hx)) hr.2.2
    have hmod := hoff pre 0 rfl (fun x hx => ht.fits x (List.mem_append_left _ hx)) ht.row.cut.1
    have hbase : k * v.blockSize % 4 = 0 := Nat.mod_eq_zero_of_dvd (Dvd.dvd.mul_left hdvd k)
    omega

/-- One call takes the entries that fit off the front of the list: none only if there are
none, when the buffer has room for each. -/
theorem getDirents_page (hlog : v.logBlockSize ≤ 5) (hbe : v.beCpu = false)
    (hrows : DirRows v (byteAt v blk odi) odi.size.toNat rows)
    (hsize : odi.size.toNat % v.blockSize = 0) {cookie : Nat} {rest : List Dirent}
    (hat : CookieAt v odi.size.toNat rows cookie rest) (size : Nat) :
    ∃ cookie' taken rest', getDirentsBuf v blk odi cookie size =
        .ok (cookie', (direntsSize v taken : Int), ⟨taken, direntsSize v taken⟩) ∧
      rest = taken ++ rest' ∧ CookieAt v odi.size.toNat rows cookie' rest' ∧
      direntsSize v taken ≤ size ∧
      ((∀ e ∈ rest, direntReclen v e.name.length ≤ size) → taken = [] → rest = []) := by
  obtain ⟨cookie', taken, rest', hloop, hrest, hat', hstop⟩ :=
    getDirentsLoop_rows hlog hbe hrows size (odi.size.toNat + 1) cookie rest ⟨[], 0⟩ hat (by omega)
  have hadd : (DirentBuf.addAll v ⟨[], 0⟩ taken) = ⟨taken, direntsSize v taken⟩ := by
    unfold DirentBuf.addAll
    rw [List.nil_append, Nat.zero_add]
  rw [hadd] at hloop hstop
  refine ⟨cookie', taken, rest', ?_, hrest, hat', ?_, fun hroom hnil => ?_⟩
  · unfold getDirentsBuf
    rw [if_neg (by rw [hat.mod hlog hrows hsize]; exact not_not_intro rfl), bind_of_ok hloop]
    rfl
  · exact (getDirentsLoop_holds _ _ _ _ _ .empty _ hloop).position_le
  · cases rest' with
    | nil => rw [hrest, hnil]; rfl
    | cons e es =>
      have hfull := hstop e es rfl
      have hfit := hroom e (by rw [hrest]; exact List.mem_append_right _ List.mem_cons_self)
      rw [hnil] at hfull
      have hzero : direntsSize v [] = 0 := rfl
      dsimp only at hfull
      omega

end List

/-! ## A sequence of calls -/

/-- What a call with a buffer of `size` bytes returns is the number of bytes it has put
there, which are no more than fit, with a zero behind every name. -/
structure Returned (v : Volume) (members : Dirent → List UInt8) (size : Nat)
    (out : Int × DirentBuf) : Prop where
  count : out.1 = (out.2.bytes v members).length
  fits : (out.2.bytes v members).length ≤ size
  terminated : ∀ e ∈ out.2.entries, ∃ n, direntBytes v members e =
    members e ++ (e.name ++ 0 :: List.replicate n 0)

/-- Calls that return something until the end, and then 0, and list `live`. With more
calls than entries the end is reached. -/
def ListsAll (live : List Dirent) (outs : List (Int × DirentBuf)) : Prop :=
  ∃ front back, outs = front ++ back ∧ (∀ o ∈ front, 0 < o.1 ∧ o.2.entries ≠ []) ∧
    (∀ o ∈ back, o.1 = 0 ∧ o.2.entries = []) ∧ (front.flatMap fun o => o.2.entries) <+: live ∧
    (back ≠ [] → (front.flatMap fun o => o.2.entries) = live) ∧
    (live.length < outs.length → back ≠ [])

section Calls

variable {v : Volume} {blk : Nat → Buf} {odi : OndiskInode} {rows : Nat → List Entry}
  {members : Dirent → List UInt8}

theorem direntReclen_gt (v : Volume) (n : Nat) : v.direntNameOff + n < direntReclen v n := by
  unfold direntReclen
  omega

theorem direntBytes_length (hmembers : ∀ e, (members e).length = v.direntNameOff) (e : Dirent) :
    (direntBytes v members e).length = direntReclen v e.name.length := by
  have hlt := direntReclen_gt v e.name.length
  unfold direntBytes
  rw [List.length_append, List.length_append, List.length_replicate, hmembers]
  omega

theorem bytes_length (hmembers : ∀ e, (members e).length = v.direntNameOff) (db : DirentBuf) :
    (db.bytes v members).length = direntsSize v db.entries := by
  unfold DirentBuf.bytes direntsSize
  rw [List.length_flatMap]
  exact congrArg List.sum (List.map_congr_left fun e _ => direntBytes_length hmembers e)

theorem direntBytes_terminated (v : Volume) (members : Dirent → List UInt8) (e : Dirent) :
    ∃ n, direntBytes v members e = members e ++ (e.name ++ 0 :: List.replicate n 0) := by
  have hlt := direntReclen_gt v e.name.length
  obtain ⟨n, hn⟩ : ∃ n, direntReclen v e.name.length - (v.direntNameOff + e.name.length) = n + 1 :=
    Nat.exists_eq_succ_of_ne_zero (by omega)
  exact ⟨n, by rw [direntBytes, hn]; rfl⟩

theorem direntsSize_pos {es : List Dirent} (h : es ≠ []) : 0 < direntsSize v es := by
  cases es with
  | nil => exact absurd rfl h
  | cons e es =>
    have := direntReclen_pos v e.name.length
    rw [direntsSize_cons]
    omega

/-- A call that finds nothing more. -/
theorem ListsAll.end_cons {db : DirentBuf} {outs : List (Int × DirentBuf)} (h : ListsAll [] outs)
    (hdb : db.entries = []) : ListsAll [] ((0, db) :: outs) := by
  obtain ⟨front, back, houts, hfront, hback, hpre, -, -⟩ := h
  have hnil : front = [] := by
    cases front with
    | nil => rfl
    | cons o front =>
      refine absurd ?_ (hfront o List.mem_cons_self).2
      have hnone := List.prefix_nil.mp hpre
      rw [List.flatMap_cons] at hnone
      exact (List.append_eq_nil_iff.mp hnone).1
  subst hnil
  refine ⟨[], (0, db) :: outs, rfl, fun _ h => (nomatch h), fun o ho => ?_, List.nil_prefix,
    fun _ => rfl, fun _ h => nomatch h⟩
  rcases List.mem_cons.mp ho with rfl | ho
  · exact ⟨rfl, hdb⟩
  · rw [houts] at ho
    exact hback o ho

/-- A call that takes entries off the front of the list. -/
theorem ListsAll.page_cons {n : Int} (hn : 0 < n) {db : DirentBuf} (hdb : db.entries ≠ [])
    {live : List Dirent} {outs : List (Int × DirentBuf)} (h : ListsAll live outs) :
    ListsAll (db.entries ++ live) ((n, db) :: outs) := by
  obtain ⟨front, back, houts, hfront, hback, hpre, hall, hlen⟩ := h
  refine ⟨(n, db) :: front, back, by rw [houts]; rfl, fun o ho => ?_, hback, ?_, fun hne => ?_,
    fun hlt => hlen ?_⟩
  · rcases List.mem_cons.mp ho with rfl | ho
    · exact ⟨hn, hdb⟩
    · exact hfront o ho
  · rw [List.flatMap_cons]
    exact (List.prefix_append_right_inj _).mpr hpre
  · rw [List.flatMap_cons, hall hne]
  · have hpos := List.length_pos_of_ne_nil hdb
    rw [List.length_append, List.length_cons] at hlt
    omega

/-- From a cookie on, calls list what it stands for. -/
theorem readdirCalls_from (hlog : v.logBlockSize ≤ 5) (hbe : v.beCpu = false)
    (hrows : DirRows v (byteAt v blk odi) odi.size.toNat rows)
    (hsize : odi.size.toNat % v.blockSize = 0)
    (hmembers : ∀ e, (members e).length = v.direntNameOff) (sizes : List Nat) :
    ∀ (cookie : Nat) (rest : List Dirent), CookieAt v odi.size.toNat rows cookie rest →
      (∀ size ∈ sizes, ∀ e ∈ rest, direntReclen v e.name.length ≤ size) →
      ∃ outs, readdirCalls v blk odi cookie sizes = .ok outs ∧
        List.Forall₂ (Returned v members) sizes outs ∧ ListsAll rest outs := by
  -- by the calls; each takes a page off what the cookie stands for
  induction sizes with
  | nil =>
    intro cookie rest _ _
    exact ⟨[], rfl, .nil, [], [], rfl, fun _ h => (nomatch h), fun _ h => (nomatch h),
      List.nil_prefix, fun h => absurd rfl h, fun h => absurd h (Nat.not_lt_zero _)⟩
  | cons size sizes ih =>
    intro cookie rest hat hroom
    obtain ⟨cookie', taken, rest', hrun, hrest, hat', hle, hend⟩ :=
      getDirents_page hlog hbe hrows hsize hat size
    have hend := hend (hroom size List.mem_cons_self)
    obtain ⟨outs, hcalls, hret, hlists⟩ := ih cookie' rest' hat' fun size hs e he =>
      hroom size (List.mem_cons_of_mem _ hs) e (by rw [hrest]; exact List.mem_append_right _ he)
    have hlength := bytes_length hmembers ⟨taken, direntsSize v taken⟩
    refine ⟨((direntsSize v taken : Int), ⟨taken, direntsSize v taken⟩) :: outs, ?_,
      .cons ⟨?_, ?_, fun e _ => direntBytes_terminated v members e⟩ hret, ?_⟩
    · unfold readdirCalls
      rw [bind_of_ok hrun]
      exact bind_of_ok hcalls _
    · rw [hlength]
    · rw [hlength]
      exact hle
    · by_cases hnil : taken = []
      · -- an empty page is the end, so the calls after it give nothing either
        have hnone := hend hnil
        rw [hnone, hnil, List.nil_append] at hrest
        rw [hnone, hnil]
        rw [← hrest] at hlists
        exact hlists.end_cons rfl
      · rw [hrest]
        have hpos : 0 < (direntsSize v taken : Int) := by
          have := direntsSize_pos (v := v) hnil
          omega
        have hpage : (⟨taken, direntsSize v taken⟩ : DirentBuf).entries ≠ [] := hnil
        exact hlists.page_cons hpos hpage

theorem mem_liveFrom {rows : Nat → List Entry} {k n : Nat} {d : Dirent}
    (h : d ∈ liveFrom rows k n) :
    ∃ j e, k ≤ j ∧ j < k + n ∧ e ∈ rows j ∧ e.ino ≠ 0 ∧ d = ⟨e.ino, e.name⟩ := by
  obtain ⟨j, hj, hd⟩ := List.mem_flatMap.mp h
  obtain ⟨e, he, rfl⟩ := List.mem_map.mp hd
  have hin := List.mem_range'_1.mp hj
  have hlive := List.mem_filter.mp he
  exact ⟨j, e, hin.1, hin.2, hlive.1, by simpa using hlive.2, rfl⟩

/-- Calls of `get_dirents` from the start of a directory on return each entry in use
once, in the order of the blocks, whatever the sizes of their buffers, if each has room for
any one entry. -/
theorem readdirCalls_list (hlog : v.logBlockSize ≤ 5) (hbe : v.beCpu = false)
    (hrows : DirRows v (byteAt v blk odi) odi.size.toNat rows)
    (hsize : odi.size.toNat % v.blockSize = 0)
    (hmembers : ∀ e, (members e).length = v.direntNameOff) {sizes : List Nat}
    (hroom : ∀ size ∈ sizes, ∀ e, Holds v odi.size.toNat rows e → e.ino ≠ 0 →
      direntReclen v e.name.length ≤ size) :
    ∃ outs, readdirCalls v blk odi 0 sizes = .ok outs ∧
      List.Forall₂ (Returned v members) sizes outs ∧
      ListsAll (liveFrom rows 0 (odi.size.toNat / v.blockSize)) outs := by
  have hbs := Volume.blockSize_bounds hlog
  have hblocks : odi.size.toNat / v.blockSize * v.blockSize = odi.size.toNat :=
    Nat.div_mul_cancel (Nat.dvd_of_mod_eq_zero hsize)
  have hstart := CookieAt.block (k := 0) (n := odi.size.toNat / v.blockSize)
    (show 0 < v.blockSize by omega) (by rw [Nat.zero_add, hblocks]) hrows
  rw [Nat.zero_mul] at hstart
  refine readdirCalls_from hlog hbe hrows hsize hmembers sizes 0 _ hstart fun size hs d hd => ?_
  obtain ⟨j, e, -, hj, he, hlive, rfl⟩ := mem_liveFrom hd
  refine hroom size hs e ⟨j, ?_, he⟩ hlive
  rw [Nat.zero_add] at hj
  exact Nat.lt_of_lt_of_le (Nat.mul_lt_mul_of_pos_right hj (by omega)) (by rw [hblocks])

end Calls

/-- `readdirCalls_list` for the root directory and four calls: `.` and `..` take a call
each, as there is room for one entry. -/
theorem readdirCalls_list_sample :
    ∃ outs, readdirCalls sampleVolume sampleDirFs.blk (sampleDirFs.slot 0).odi 0 [24, 24, 512, 512] =
        .ok outs ∧
      List.Forall₂ (Returned sampleVolume fun _ => List.replicate 16 0) [24, 24, 512, 512] outs ∧
      ListsAll (liveFrom sampleRows 0 ((sampleDirFs.slot 0).odi.size.toNat /
        sampleVolume.blockSize)) outs := by
  have hrows : DirRows sampleVolume (byteAt sampleVolume sampleDirFs.blk
      (nodeAt sampleVolume sampleDirFs 2)) (sampleDirFs.slot 0).odi.size.toNat sampleRows :=
    sampleDirFs_good.tiled
  rw [sampleDirFs_good.found.nodeAt] at hrows
  refine readdirCalls_list (by decide) rfl hrows (by decide) (fun _ => by decide) ?_
  intro size hs e he _
  obtain ⟨k, -, hmem⟩ := he
  have hlen : ∀ e ∈ sampleRows 0, direntReclen sampleVolume e.name.length ≤ 24 := by decide
  have hsizes : ∀ size ∈ [24, 24, 512, 512], 24 ≤ size := by decide
  exact Nat.le_trans (hlen e hmem) (hsizes size hs)

end Cheviot.Ext2
