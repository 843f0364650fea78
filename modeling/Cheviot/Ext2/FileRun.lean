import Cheviot.Ext2.OwnedRun
import Cheviot.Ext2.Read
import Cheviot.Ext2.WriteSize
import Cheviot.Lib.ByteFile
import Cheviot.Lib.Refine

/-!
# A store of files

To its clients the server is a store: every inode number that is a regular file has a
file of bytes, which the writes put together and the reads show. A file is known until a
write to it fails part way; what it then holds depends on when its cache slot is recycled.

The argument is a simulation. `IsStore` relates the inodes and blocks to a store: the
owners of the blocks are in order (`Owned`), and what the store has for a regular file in
use is what the inode gives, on the disk or in a slot that will be written. A request that
takes no data is a sequence of calls, each of which keeps every file (`KeepsFiles`), but for
the one inode that it makes. A write is followed through its loop to the one file it is for;
the blocks of the others are elsewhere.

* `Store`, `StoreStep` — what a store may do.
* `Stores.keep`, `Stores.make` — the requests that take no data.
* `writeFile_stores`, `readFile_sends` — those that do.
* `StoreStep.known` — only a write that fails part way makes the store forget a file.
* `fileRun_refines` — so in every run of requests the server does nothing that a store
  would not do, and the store knows every file of which no write has failed part way.
-/

namespace Cheviot.Ext2

open Cheviot.Bytes Cheviot.Files Cheviot.Refine Cheviot.Run

/-! ## The store -/

/-- The files of which the content is known, by inode number. -/
abbrev Store := Nat → Option ByteFile

/-- What the client and the server see of a request. -/
inductive FileEvent where
  | write (n pos : Nat) (data : List UInt8) (total : Nat)
  | torn (n : Nat)
  | read (n pos count : Nat) (data : List UInt8)
  | make (n : Nat)
  | other
  deriving DecidableEq

/-- What a request does to the store. -/
inductive StoreStep (bs : Nat) : Store → FileEvent → Store → Prop where
  -- the data is put in, all of it
  | write {st : Store} {n pos : Nat} {data : List UInt8} :
      StoreStep bs st (.write n pos data data.length)
        (Function.update st n ((st n).map fun f => f.write pos data))
  -- nothing is known of the file any more
  | torn {st : Store} {n : Nat} : StoreStep bs st (.torn n) (Function.update st n none)
  -- the bytes asked for, and only these unless they are in several blocks
  | read {st : Store} {n pos count : Nat} {data : List UInt8}
      (h : ∀ f, st n = some f → ∃ m, count ≤ m ∧ data = f.read pos m ∧
        (pos % bs + count ≤ bs ∨ f.size ≤ pos + count ∨ (pos + count) % bs = 0 → m = count)) :
      StoreStep bs st (.read n pos count data) st
  -- the inode that is made is empty, also when it was in use
  | make {st : Store} {n : Nat} : StoreStep bs st (.make n) (Function.update st n (some .empty))
  -- or it is not made
  | fail {st : Store} {n : Nat} : StoreStep bs st (.make n) st
  | other {st : Store} : StoreStep bs st .other st

/-- Only a write that fails part way makes a store forget a file. -/
theorem StoreStep.known {bs n : Nat} {st st' : Store} {e : FileEvent} (h : StoreStep bs st e st')
    (hst : st' n = none) : st n = none ∨ e = .torn n := by
  cases h with
  | @write m =>
    by_cases hm : n = m
    · rw [hm, Function.update_self, Option.map_eq_none_iff] at hst
      rw [hm]
      exact .inl hst
    · rw [Function.update_of_ne hm] at hst
      exact .inl hst
  | @torn m =>
    by_cases hm : n = m
    · rw [hm]
      exact .inr rfl
    · rw [Function.update_of_ne hm] at hst
      exact .inl hst
  | @make m =>
    by_cases hm : n = m
    · rw [hm, Function.update_self] at hst
      cases hst
    · rw [Function.update_of_ne hm] at hst
      exact .inl hst
  | read => exact .inl hst
  | fail => exact .inl hst
  | other => exact .inl hst

/-- In a run, too, only a torn write makes the store forget a file. -/
theorem runs_known {bs n : Nat} {st₀ st : Store} {es : List FileEvent}
    (h : Runs (StoreStep bs) st₀ es st) (hst : st n = none) : st₀ n = none ∨ .torn n ∈ es := by
  induction h with
  | start => exact .inl hst
  | step _ hstep ih =>
    rcases hstep.known hst with hnone | rfl
    · exact (ih hnone).imp_right (List.mem_append_left _)
    · exact .inr (List.mem_append_right _ List.mem_cons_self)

/-! ## The server as a store -/

section Server

variable {v : Volume} {env : Env} {s s' : Fs} {live live' : Nat → Prop} {n m i : Nat} {st : Store}

/-- The file behind an inode. -/
def fileOf (v : Volume) (s : Fs) (n : Nat) : ByteFile where
  size := (nodeAt v s n).size.toNat
  byte := fileByte v s n
  past q hq := by rw [fileByte, if_neg (Nat.not_lt.mpr hq)]

/-- A file within the limit, with nothing behind its end. -/
structure Tidy (v : Volume) (s : Fs) (n : Nat) : Prop where
  size : (nodeAt v s n).size.toNat ≤ maxFilePos
  zero : ∀ q, q ≤ maxFilePos → (nodeAt v s n).size.toNat ≤ q → contentAt v s n q = 0

/-- Inode `n` is the file `f`, which is on the disk or will be. -/
structure IsFile (v : Volume) (s : Fs) (n : Nat) (f : ByteFile) : Prop where
  lag : LagAt v Synced s n
  tidy : Tidy v s n
  file : fileOf v s n = f

/-- The regular files among the inodes of `live` are as the store has them, as far as it
knows. -/
def Stores (v : Volume) (s : Fs) (live : Nat → Prop) (st : Store) : Prop :=
  ∀ n, live n → sIsReg (nodeAt v s n).mode = true → ∀ f, st n = some f → IsFile v s n f

/-- Between two requests the server is a store. -/
def IsStore (v : Volume) (s : Fs) (st : Store) : Prop :=
  ∃ live, Owned v Behind s [] live noArg ∧ Stores v s live st

theorem SameData.fileOf (h : SameData v s s' n) : fileOf v s' n = fileOf v s n := by
  refine ByteFile.ext (congrArg UInt32.toNat h.size) (funext fun q => ?_)
  show fileByte v s' n q = fileByte v s n q
  unfold fileByte
  rw [h.size]
  split
  next hq => exact h.bytes q (Nat.lt_trans hq (UInt32.toNat_lt _))
  next => rfl

theorem SameData.tidy (h : SameData v s s' n) (ht : Tidy v s n) : Tidy v s' n := by
  refine ⟨?_, fun q hq => ?_⟩
  · rw [h.size]
    exact ht.size
  · rw [h.size, h.bytes q (maxFilePos_lt hq)]
    exact ht.zero q hq

theorem FileKept.isFile (h : FileKept v s s' n) {f : ByteFile} (hf : IsFile v s n f) :
    IsFile v s' n f := by
  obtain ⟨hlag, hsame⟩ := h.data hf.lag
  exact ⟨hlag, hsame.tidy hf.tidy, hsame.fileOf.trans hf.file⟩

/-- An inode without blocks is an empty file. -/
theorem NewFile.isFile (h : NewFile v s n) (hlog : v.logBlockSize ≤ 5) :
    IsFile v s n .empty := by
  have hzero : ∀ q, q ≤ maxFilePos → contentAt v s n q = 0 := by
    intro q hq
    obtain ⟨k, p, hcalc, -⟩ := calc_place hlog (maxFilePos_lt hq)
    rw [contentAt_eq hcalc, if_pos]
    exact mapAt_null (h.empty.block k) p
  have hsize : (nodeAt v s n).size.toNat = 0 := by rw [h.empty.size]; rfl
  refine ⟨h.lag, ⟨?_, fun q hq _ => hzero q hq⟩, ByteFile.ext hsize (funext fun q => ?_)⟩
  · rw [hsize]
    exact Nat.zero_le _
  · show fileByte v s n q = 0
    rw [fileByte, if_neg (by omega)]

/-- A request that makes no inode leaves the store as it is. -/
theorem Stores.keep (h : Stores v s live st) {arg : Args}
    (hkeep : KeepsFiles v arg s live s' live') (hmade : ∀ n name, ¬ arg.name (some n) name) :
    Stores v s' live' st := by
  intro n hn hreg f hf
  rcases hkeep n hn hreg with ⟨hname, -⟩ | ⟨hold, hkept⟩
  · obtain ⟨name, hname⟩ := hname
    exact absurd hname (hmade n name)
  · exact hkept.isFile (h n hold hkept.reg f hf)

/-- One that changes no file. -/
theorem Stores.allKept (h : Stores v s live st) (hkeep : AllKept v live s s') :
    Stores v s' live st := by
  intro n hn hreg f hf
  have hkept := hkeep n hn hreg
  exact hkept.isFile (h n hn hkept.reg f hf)

/-- One that does leaves this one empty, and the others as they are. -/
theorem Stores.make (h : Stores v s live st) (hlog : v.logBlockSize ≤ 5) {arg : Args}
    (hkeep : KeepsFiles v arg s live s' live') (hmade : ∀ m name, arg.name (some m) name → m = n) :
    ∃ st', StoreStep v.blockSize st (.make n) st' ∧ Stores v s' live' st' := by
  have hothers : ∀ m, m ≠ n → live' m → sIsReg (nodeAt v s' m).mode = true → ∀ f,
      st m = some f → IsFile v s' m f := by
    intro m hmn hm hreg f hf
    obtain ⟨hold, hkept⟩ := (hkeep m hm hreg).resolve_left fun hnew =>
      hmn (hnew.1.elim fun name hname => hmade m name hname)
    exact hkept.isFile (h m hold hkept.reg f hf)
  by_cases hnew : NewFile v s' n
  · refine ⟨_, .make, fun m hm hreg f hf => ?_⟩
    by_cases hmn : m = n
    · rw [hmn, Function.update_self] at hf
      cases hf
      rw [hmn]
      exact hnew.isFile hlog
    · rw [Function.update_of_ne hmn] at hf
      exact hothers m hmn hm hreg f hf
  · refine ⟨st, .fail, fun m hm hreg f hf => ?_⟩
    by_cases hmn : m = n
    · obtain ⟨hold, hkept⟩ := (hkeep m hm hreg).resolve_left fun hmade => hnew (hmn ▸ hmade.2)
      exact hkept.isFile (h m hold hkept.reg f hf)
    · exact hothers m hmn hm hreg f hf

/-! ### Writes -/

/-- Another file does not see a write. -/
theorem FileStep.kept (h : FileStep v live n i s s') (hf : Found s n i) (hvol : OnVolume v m)
    (hm : live m) (hne : m ≠ n) (hreg : sIsReg (nodeAt v s' m).mode = true) :
    FileKept v s s' m := by
  have hnode := h.node m hvol hne
  refine ⟨by rwa [← hnode], fun hlag => ⟨fun j hj hjm => ?_, by rw [hnode], by rw [hnode],
    h.bytes m hm hne⟩⟩
  have hji : j ≠ i := by
    rintro rfl
    rw [h.lists.ino, hf.ino] at hjm
    exact hne hjm.symm
  rw [h.slot j hji] at hjm ⊢
  rw [h.disk m hvol hne]
  exact hlag j hj hjm

/-- The errors of the loop are those of a chunk. -/
theorem writeLoop_error (msg : List UInt8) (fuel : Nat) : ∀ (s : Fs) (nbytes pos total : Nat),
    Ends (writeLoop v env i msg fuel s nbytes pos total) fun r =>
      ∀ e, r.2.2.2 = .error e → e = .eio := by
  induction fuel with
  | zero => exact fun _ _ _ _ => .error _
  | succ fuel ih =>
    intro s nbytes pos total
    unfold writeLoop
    split
    · refine .ok fun e he => ?_
      cases he
    · dsimp only
      have hchunk : Ends (writeChunk v env s i pos (pos % v.blockSize)
          (min (v.blockSize - pos % v.blockSize) nbytes) msg total) fun r =>
          ∀ e, r.2 = .error e → e = .eio := by
        unfold writeChunk
        refine .bind (P := fun _ => True) (fun _ _ => trivial) fun r _ => ?_
        obtain ⟨t, buf⟩ := r
        cases buf with
        | none =>
          refine .pure fun e he => ?_
          cases he
          rfl
        | some b =>
          refine .pure fun e he => ?_
          dsimp only at he
          split at he
          · cases he
          · cases he
            rfl
      refine hchunk.bind fun r hr => ?_
      obtain ⟨t, sc⟩ := r
      cases sc with
      | error e => exact .pure hr
      | ok u => exact ih t _ _ _

/-- A write that fails for another reason has not begun. -/
theorem writeFile_error {nbytes pos : Nat} {msg : List UInt8} {e : Errno}
    (hrun : writeFile v env s n nbytes pos msg = .ok (s', .error e)) : e = .eio ∨ s' = s := by
  unfold writeFile at hrun
  obtain ⟨r, -, hrun⟩ := ok_of_bind hrun
  cases r with
  | none =>
    cases hrun
    exact .inr rfl
  | some i =>
    dsimp only at hrun
    split at hrun
    · cases hrun
      exact .inr rfl
    · obtain ⟨r, hloop, hrun⟩ := ok_of_bind hrun
      obtain ⟨t, position, total, sc⟩ := r
      have herror := writeLoop_error msg _ _ _ _ _ _ hloop
      cases sc with
      | error e' =>
        cases hrun
        exact .inl (herror e rfl)
      | ok u =>
        obtain ⟨w, -, hrun⟩ := ok_of_bind hrun
        cases hrun

/-- One that succeeds is within the limit. -/
theorem writeFile_end (hf : Found s n i) (hlt : n < 2 ^ 31) {nbytes pos total : Nat}
    (hnb : nbytes < 2 ^ 32) {msg : List UInt8}
    (hrun : writeFile v env s n nbytes pos msg = .ok (s', .ok total)) :
    pos + nbytes ≤ maxFilePos := by
  have hfind : findInode s n = .ok (some i) := by
    rw [findInode, bucketOf, if_pos hlt]
    exact congrArg Except.ok hf
  by_contra hover
  unfold writeFile at hrun
  rw [bind_of_ok hfind] at hrun
  dsimp only at hrun
  rw [if_pos ((offT_limit hnb).mpr (Nat.lt_of_not_le hover))] at hrun
  cases hrun

/-- A write that succeeds puts its data in. -/
theorem writeFile_stores (hv : Layout v) (hs : FilesOk v s live) (hn : live n) (hf : Found s n i)
    (hreg : sIsReg (nodeAt v s n).mode = true) {nbytes pos total : Nat} (hnb : nbytes < 2 ^ 32)
    {msg : List UInt8} (hrun : writeFile v env s n nbytes pos msg = .ok (s', .ok total)) :
    total = (msg.take nbytes).length ∧ (Tidy v s n →
      Tidy v s' n ∧ fileOf v s' n = (fileOf v s n).write pos (msg.take nbytes)) := by
  have hvol := hs.on_volume n hn
  have hend := writeFile_end hf (hvol.lt hv) hnb hrun
  obtain ⟨s₁, pos', total', sc, new, hloop, hstep, hle, hge, hdone⟩ :=
    writeLoop_spec hv env hn msg (nbytes + 1) s nbytes pos 0 hs hf (by omega) hend
  -- the loop has put the data where the map leads; what `write_file` does after it keeps that
  have heq := writeFile_eq hf (hvol.lt hv) hvol hend hstep.slot hloop
  rw [hf.nodeAt] at hreg
  obtain ⟨t, r, hrum, hsize, hbytes⟩ := writeFile_after hv hs hn hf hreg hend hloop hstep
    (by omega)
  rw [hrun] at hrum heq
  cases hrum
  cases sc with
  | error e => cases heq
  | ok u =>
    cases heq
    obtain ⟨rfl, rfl, hlen, hnew⟩ := hdone rfl
    simp only [readmsg, List.drop_zero] at hlen hnew
    refine ⟨by omega, fun htidy => ?_⟩
    have hmax : (nodeAt v s n).size.toNat ≤ maxFilePos := htidy.size
    -- behind the end there are zeros, which is what a gap is to read
    have hzero : ZeroFrom v s n i pos := by
      intro q hq hpast _
      rw [← hf.nodeAt (v := v)] at hpast
      exact htidy.zero q hq hpast
    have hcontent : ∀ q, q ≤ maxFilePos →
        contentAt v _ n q = overlay (contentAt v s n) pos (msg.take nbytes) q := fun q hq =>
      (hbytes q (maxFilePos_lt hq)).trans (hnew hzero q hq)
    refine ⟨⟨?_, fun q hq hpast => ?_⟩, ByteFile.ext ?_ (funext fun q => ?_)⟩
    · rw [hsize]
      omega
    · rw [hsize] at hpast
      rw [hcontent q hq, overlay_of_out (.inr (by omega))]
      exact htidy.zero q hq (by omega)
    · show (nodeAt v _ n).size.toNat = max (nodeAt v s n).size.toNat (pos + (msg.take nbytes).length)
      rw [hsize, hlen]
    · show fileByte v _ n q = overlay (fileByte v s n) pos (msg.take nbytes) q
      -- a byte of the new file: of the data, of the old file, or one of the gap
      rw [fileByte, hsize]
      split
      next hq =>
        rw [hcontent q (by omega)]
        refine overlay_congr fun _ => ?_
        rw [fileByte]
        split
        · rfl
        next hpast => exact htidy.zero q (by omega) (by omega)
      next hq =>
        rw [overlay_of_out (.inr (by omega)), fileByte, if_neg (by omega)]

theorem writeFile_found (hlt : n < 2 ^ 31) {nbytes pos total : Nat} {msg : List UInt8}
    (hrun : writeFile v env s n nbytes pos msg = .ok (s', .ok total)) : ∃ i, Found s n i := by
  unfold writeFile at hrun
  obtain ⟨r, hfind, hrun⟩ := ok_of_bind hrun
  cases r with
  | none => cases hrun
  | some i =>
    rw [findInode, bucketOf, if_pos hlt] at hfind
    exact ⟨i, Except.ok.inj hfind⟩

/-- After a write the inode is on the disk. -/
theorem WriteLeaves.lagAt {total : Nat} (h : WriteLeaves v n i s s' (.ok total))
    (hstep : FileStep v live n i s s') (hl : ListsOk s []) (hf : Found s n i) (hn : n ≠ noEntry) :
    LagAt v Synced s' n := by
  have hstored : diskInode v s' n = (s'.slot i).odi := h
  have hcached := (hl.search_iff hn).mp hf
  intro j hj hjn
  rw [hstep.lists.ino] at hjn
  obtain rfl : j = i := hl.ino_inj j i hj hcached.1 (hjn.trans hcached.2.symm) (hjn ▸ hn)
  rw [hstored]
  exact .inl rfl

/-- The files that are not written to. -/
theorem writeFile_others (hv : Layout v) (hs : FilesOk v s live) (hn : live n)
    (hreg : sIsReg (nodeAt v s n).mode = true) {nbytes pos : Nat} (hnb : nbytes < 2 ^ 32)
    {msg : List UInt8} {r : Except Errno Nat}
    (hrun : writeFile v env s n nbytes pos msg = .ok (s', r)) (hm : live m) (hmn : m ≠ n)
    (hmreg : sIsReg (nodeAt v s' m).mode = true) : FileKept v s s' m := by
  rcases writeFile_step hv hs hn hreg hnb msg _ hrun with hsame | ⟨j, hfj, hstep, -⟩
  · obtain rfl : s' = s := hsame
    exact .refl hmreg
  · exact hstep.kept hfj (hs.on_volume m hm) hm hmn hmreg

/-- A write that succeeds is one to the store. -/
theorem IsStore.write (h : IsStore v s st) (hv : Layout v) {nbytes pos total : Nat}
    {msg : List UInt8} (hreq : ProperRequest v s env (.write n nbytes pos msg))
    (hrun : writeFile v env s n nbytes pos msg = .ok (s', .ok total)) :
    total = (msg.take nbytes).length ∧ IsStore v s'
      (Function.update st n ((st n).map fun f => f.write pos (msg.take nbytes))) := by
  obtain ⟨live, hs, hst⟩ := h
  obtain ⟨huse, hreg, hnb⟩ := hreq.file n nbytes pos msg rfl
  have hn := hs.inodeInUse huse
  obtain ⟨i, hf⟩ := writeFile_found (huse.1.lt hv) hrun
  obtain ⟨htotal, hwrote⟩ := writeFile_stores hv hs.files hn hf hreg hnb hrun
  have hs' := hs.write hv Behind.lagOk hn hreg hnb (hs.writeLag hv hreq) _ hrun
  refine ⟨htotal, live, hs', fun m hm hmreg f hmf => ?_⟩
  by_cases hmn : m = n
  · subst hmn
    rw [Function.update_self, Option.map_eq_some_iff] at hmf
    obtain ⟨g, hg, rfl⟩ := hmf
    have hold := hst m hm hreg g hg
    obtain ⟨htidy, hfile⟩ := hwrote hold.tidy
    refine ⟨?_, htidy, hold.file ▸ hfile⟩
    rcases writeFile_step hv hs.files hn hreg hnb msg _ hrun with
      hsame | ⟨j, hfj, hstep, hleaves⟩
    · rw [show s' = s from hsame]
      exact hold.lag
    · exact hleaves.lagAt hstep hs.cache.toListsOk hfj huse.1.ne_noEntry
  · rw [Function.update_of_ne hmn] at hmf
    have hkept := writeFile_others hv hs.files hn hreg hnb hrun hm hmn hmreg
    exact hkept.isFile (hst m hm hkept.reg f hmf)

/-- One that fails part way leaves a file behind of which nothing is known. -/
theorem IsStore.torn (h : IsStore v s st) (hv : Layout v) {nbytes pos : Nat} {msg : List UInt8}
    {e : Errno} (hreq : ProperRequest v s env (.write n nbytes pos msg))
    (hrun : writeFile v env s n nbytes pos msg = .ok (s', .error e)) :
    IsStore v s' (Function.update st n none) := by
  obtain ⟨live, hs, hst⟩ := h
  obtain ⟨huse, hreg, hnb⟩ := hreq.file n nbytes pos msg rfl
  have hn := hs.inodeInUse huse
  refine ⟨live, hs.write hv Behind.lagOk hn hreg hnb (hs.writeLag hv hreq) _ hrun,
    fun m hm hmreg f hmf => ?_⟩
  by_cases hmn : m = n
  · rw [hmn, Function.update_self] at hmf
    cases hmf
  · rw [Function.update_of_ne hmn] at hmf
    have hkept := writeFile_others hv hs.files hn hreg hnb hrun hm hmn hmreg
    exact hkept.isFile (hst m hm hkept.reg f hmf)

/-! ### The other requests -/

/-- What `read_file` sends, of a file that it finds in the cache. -/
theorem readFile_sends (hbs : 0 < v.blockSize) (hlt : n < 2 ^ 31) {count pos room : Nat}
    {bytes : List UInt8} (hrun : readFile v s n count pos room = .ok (s', .ok bytes)) :
    ∃ total, bytes = getBytes (contentAt v s n) pos total ∧
      ReadEnd v.blockSize (nodeAt v s n).size.toNat count pos 0 total := by
  unfold readFile at hrun
  obtain ⟨r, hfind, hrun⟩ := ok_of_bind hrun
  cases r with
  | none => cases hrun
  | some i =>
    rw [findInode, bucketOf, if_pos hlt] at hfind
    have hf : Found s n i := Except.ok.inj hfind
    dsimp only at hrun
    rcases readLoop_spec hbs (count + 1) pos [] (Nat.lt_succ_self _) with
      herr | ⟨total, hloop, hend⟩
    · rw [bind_of_ok herr] at hrun
      cases hrun
    · rw [bind_of_ok hloop] at hrun
      cases hrun
      have hbytes : contentAt v s n = byteAt v s.blk (s.slot i).odi := by
        funext q
        rw [contentAt, hf.nodeAt]
      rw [hbytes, hf.nodeAt]
      exact ⟨total, List.nil_append _, hend⟩

/-- What a read has sent is the part of the file that was asked for, or a longer one. -/
theorem ReadEnd.reads {count pos total : Nat}
    (h : ReadEnd v.blockSize (nodeAt v s n).size.toNat count pos 0 total) :
    ∃ m, count ≤ m ∧ getBytes (contentAt v s n) pos total = (fileOf v s n).read pos m ∧
      (pos % v.blockSize + count ≤ v.blockSize ∨ (fileOf v s n).size ≤ pos + count ∨
        (pos + count) % v.blockSize = 0 → m = count) := by
  have hinside := h.inside
  have hdone := h.done
  have hcut := h.cut_iff (.inl rfl)
  unfold CutRight at hcut
  simp only [Nat.zero_add, Nat.sub_zero, Nat.zero_le, true_and] at hdone hcut
  refine ⟨max count total, Nat.le_max_left _ _, ?_, fun hends => ?_⟩
  · have hlen : min (max count total) ((nodeAt v s n).size.toNat - pos) = total := by omega
    show _ = getBytes (fileByte v s n) pos (min (max count total) ((nodeAt v s n).size.toNat - pos))
    rw [hlen]
    refine getBytes_congr fun q hlo hhi => ?_
    rw [fileByte, if_pos (by omega)]
  · have hsize : (fileOf v s n).size = (nodeAt v s n).size.toNat := rfl
    rw [hsize] at hends
    omega

/-- A read leaves the store as it is, and shows a file as it is there. -/
theorem IsStore.read (h : IsStore v s st) (hv : Layout v) {count pos room : Nat}
    {r : Except Errno (List UInt8)} (hrun : readFile v s n count pos room = .ok (s', r)) :
    IsStore v s' st ∧ ∀ bytes, r = .ok bytes → InodeInUse v s n →
      sIsReg (nodeAt v s n).mode = true → ∀ f, st n = some f →
        ∃ m, count ≤ m ∧ bytes = f.read pos m ∧
          (pos % v.blockSize + count ≤ v.blockSize ∨ f.size ≤ pos + count ∨
            (pos + count) % v.blockSize = 0 → m = count) := by
  obtain ⟨live, hs, hst⟩ := h
  obtain ⟨hs', hkept⟩ := hs.read hv.log_le _ hrun
  refine ⟨⟨live, hs', hst.allKept hkept⟩, fun bytes hr huse hreg f hf => ?_⟩
  have hbs := Volume.blockSize_bounds hv.log_le
  rw [hr] at hrun
  obtain ⟨total, rfl, hend⟩ := readFile_sends (by omega) (huse.1.lt hv) hrun
  have hfile := (hst n (hs.inodeInUse huse) hreg f hf).file
  rw [← hfile]
  exact hend.reads

/-- What is seen of a request that takes no data: the inode it makes, if any. -/
def makeEvent : Option Nat → FileEvent
  | some n => .make n
  | none => .other

/-- A request that takes directories only. -/
theorem IsStore.calls (h : IsStore v s st) (hv : Layout v) (hbe : v.beCpu = false)
    (hsize : 4 ≤ v.sizeofIno) {req : Request} (hreq : ProperRequest v s env req)
    (hdirs : req.inos = req.dirs) (htransfer : req.isTransfer = false) {reply : Reply}
    (hrun : handle (inodeCalls v env) v env s req = .ok (s', reply)) :
    ∃ st', StoreStep v.blockSize st (makeEvent (req.made v env s)) st' ∧ IsStore v s' st' := by
  obtain ⟨live, hs, hst⟩ := h
  have hacts := handle_names hs.cache.toListsOk hv hreq hdirs htransfer
    (P := fun made _ => made = req.made v env s) (fun _ _ => rfl) _ hrun
  obtain ⟨live', hs', -, hkeep⟩ := hs.calls hv Behind.lagOk hbe hsize hreq.dirs hacts
  cases hmade : req.made v env s with
  | none =>
    refine ⟨st, .other, live', hs', hst.keep hkeep fun n _ hn => ?_⟩
    rw [hmade] at hn
    cases hn
  | some n =>
    obtain ⟨st', hstep, hstores⟩ := hst.make hv.log_le hkeep (n := n) fun m _ hm => by
      rw [hmade] at hm
      exact Option.some.inj hm
    exact ⟨st', hstep, live', hs', hstores⟩

/-- `ext2_chmod` and `ext2_chown`. -/
theorem IsStore.change (h : IsStore v s st) (hv : Layout v) {f : OndiskInode → OndiskInode}
    (hn : OnVolume v n)
    (hf : ∀ x, (f x).size = x.size ∧ (f x).block = x.block ∧
      (f x).mode &&& 0xF000 = x.mode &&& 0xF000 ∧ (f x).linksCount = x.linksCount) :
    Ends (changeHandler (inodeCalls v env) s n f) fun r => IsStore v r.1 st := by
  obtain ⟨live, hs, hst⟩ := h
  exact Ends.mono (hs.changeHandler hv Behind.lagOk hn hf) fun r hr =>
    ⟨live, hr.1, hst.allKept hr.2⟩

end Server

/-! ## All requests -/

section Run

variable {v : Volume} {s s' s₀ : Fs} {st : Store}

instance (v : Volume) (n : Nat) : Decidable (OnVolume v n) :=
  inferInstanceAs (Decidable (1 ≤ n ∧ n ≤ v.groupsCount * v.inodesPerGroup))

instance (v : Volume) (s : Fs) (n : Nat) : Decidable (InodeInUse v s n) :=
  inferInstanceAs (Decidable (OnVolume v n ∧ (nodeAt v s n).linksCount ≠ 0))

/-- A regular file in use. -/
def RegInUse (v : Volume) (s : Fs) (n : Nat) : Prop :=
  InodeInUse v s n ∧ sIsReg (nodeAt v s n).mode = true

instance (v : Volume) (s : Fs) (n : Nat) : Decidable (RegInUse v s n) :=
  inferInstanceAs (Decidable (InodeInUse v s n ∧ _))

/-- What is seen of a request and its reply. -/
def fileEvent (v : Volume) (env : Env) (s : Fs) : Request → Reply → FileEvent
  | .write n count offset msg, .written total => .write n offset (msg.take count) total
  | .write n _ _ _, .status (.error .eio) => .torn n
  | .read n count offset _, .data bytes =>
    if RegInUse v s n then .read n offset count bytes else .other
  | req, _ => makeEvent (req.made v env s)

/-- A proper request that is served, and what is seen of it. -/
inductive Serves (v : Volume) (s : Fs) : FileEvent → Fs → Prop where
  | request {s' : Fs} {env : Env} {req : Request} {reply : Reply}
      (hok : ProperRequest v s env req)
      (hrun : handle (inodeCalls v env) v env s req = .ok (s', reply)) :
      Serves v s (fileEvent v env s req reply) s'

/-- Every request does what a store would do. -/
theorem serves_simulates (hv : Layout v) (hbe : v.beCpu = false) (hsize : 4 ≤ v.sizeofIno) :
    Simulates (Serves v) (StoreStep v.blockSize) (IsStore v) := by
  intro s st e s' hst hserves
  cases hserves with
  | @request _ env req reply hok hrun =>
  have hcalls := fun hdirs htransfer => hst.calls hv hbe hsize hok hdirs htransfer hrun
  cases req with
  | read n count offset room =>
    -- the data that the store has is what is read; the read itself only sets a time
    obtain ⟨r, hread, hrun⟩ := ok_of_bind hrun
    obtain ⟨t, res⟩ := r
    obtain ⟨hst', hbytes⟩ := hst.read hv hread
    cases res with
    | error e =>
      cases hrun
      exact ⟨st, .other, hst'⟩
    | ok bytes =>
      cases hrun
      refine ⟨st, ?_, hst'⟩
      unfold fileEvent
      dsimp only
      split
      next hreg => exact .read fun f hf => hbytes bytes rfl hreg.1 hreg.2 f hf
      next => exact .other
  | write n count offset msg =>
    obtain ⟨r, hwrite, hrun⟩ := ok_of_bind hrun
    obtain ⟨t, res⟩ := r
    cases res with
    | error e =>
      cases hrun
      -- `-EIO` comes after some of the data: the file is torn from then on
      by_cases he : e = .eio
      · subst he
        exact ⟨_, .torn, hst.torn hv hok hwrite⟩
      · obtain rfl := (writeFile_error hwrite).resolve_left he
        refine ⟨st, ?_, hst⟩
        cases e with
        | eio => exact absurd rfl he
        | _ => exact .other
    | ok total =>
      cases hrun
      obtain ⟨htotal, hst'⟩ := hst.write hv hok hwrite
      rw [htotal]
      exact ⟨_, .write, hst'⟩
  | chmod n mode =>
    -- mode and owner are not what the store goes by
    have hn := (hok.inos n List.mem_cons_self).onVolume hv
    have hst' := hst.change hv hn (f := fun odi => { odi with mode := chmodMode odi.mode mode })
      (fun x => ⟨rfl, rfl, chmodMode_kind x.mode mode, rfl⟩) _ hrun
    exact ⟨st, .other, hst'⟩
  | chown n uid gid =>
    have hn := (hok.inos n List.mem_cons_self).onVolume hv
    have hst' := hst.change hv hn (f := fun odi => { odi with uid := uid, gid := gid })
      (fun x => ⟨rfl, rfl, rfl, rfl⟩) _ hrun
    exact ⟨st, .other, hst'⟩
  | truncate n size =>
    cases hrun
    exact ⟨st, .other, hst⟩
  | _ => exact hcalls rfl rfl

/-- The files on a volume that is mounted. -/
def mountedFiles (v : Volume) (s : Fs) : Store := fun n =>
  some (if RegInUse v s n then fileOf v s n else .empty)

theorem Consistent.isStore (h : Consistent v (initInodeCache s₀))
    (htidy : ∀ n, RegInUse v (initInodeCache s₀) n → Tidy v (initInodeCache s₀) n) :
    IsStore v (initInodeCache s₀) (mountedFiles v (initInodeCache s₀)) := by
  refine ⟨_, h.owned Behind, fun n hn hreg f hf => ?_⟩
  have hfile : (if RegInUse v (initInodeCache s₀) n then fileOf v (initInodeCache s₀) n else
    .empty) = f := Option.some.inj hf
  rw [if_pos ⟨hn, hreg⟩] at hfile
  -- nothing is in the cache
  exact ⟨fun j _ hj => absurd hj.symm hn.1.ne_noEntry, htidy n ⟨hn, hreg⟩, hfile⟩

theorem sampleFs_noFile (n : Nat) : ¬ RegInUse sampleVolume (initInodeCache sampleFs) n := by
  rintro ⟨huse, hreg⟩
  rw [(sampleFs_inodeInUse n).mp huse] at hreg
  exact absurd hreg (by decide)

/-- A request that names one regular file in use. -/
theorem properRequest_file {env : Env} {req : Request} {n : Nat} (hreg : RegInUse v s n)
    (hcount : OnDevice v n) (hinos : req.inos = [n]) (hdirs : req.dirs = [])
    (hfile : ∀ m nbytes position msg, req = .write m nbytes position msg →
      m = n ∧ nbytes < 2 ^ 32) : ProperRequest v s env req := by
  refine ⟨fun m hm => ?_, fun m hm => ?_, fun m nbytes position msg hreq => ?_⟩
  · rw [hinos, List.mem_singleton] at hm
    rwa [hm]
  · rw [hdirs] at hm
    cases hm
  · obtain ⟨rfl, hnb⟩ := hfile m nbytes position msg hreq
    exact ⟨hreg.1, hreg.2, hnb⟩

end Run

end Cheviot.Ext2
