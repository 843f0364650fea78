import Cheviot.Lib.Pages
import Cheviot.Ifs.Read
import Mathlib.Tactic.IntervalCases

/-!
# Listing a directory of the initial file system: `ifs_readdir`

`ifs_readdir` goes through the node table from the offset of the request on, and puts the
nodes of the directory into a buffer until one does not fit. The offset it returns is the
number of this node, so that the next request begins with it.

* `readdirLoop_from` — what the loop takes from the table, and where it stops.
* `ifsReaddir_reply` — a reply to any request.
* `ifsReaddirs_list` — requests one behind the other list the directory.

Mirroring notes:
- `struct dirent` is declared elsewhere: `DirentLayout` is what stands in front of the name
  in it.
- A node outside of the table and a name without an end in its 32 bytes are not read; the
  function ends with a fault instead.
-/

namespace Cheviot.Ifs

open Cheviot.Bytes Cheviot.Pages

/-! ## The function -/

/-- `DIRENTS_BUF_SZ` -/
def direntsBufSz : Nat := 4096

/-- `ALIGN_UP` -/
def alignUp (val alignment : Nat) : Nat := (val + alignment - 1) / alignment * alignment

/-- What the function reads that is not there. -/
inductive Fault where
  /-- a node outside of the table -/
  | node
  /-- a byte behind a name without an end -/
  | name
  /-- more rounds than there are nodes -/
  | hang
  deriving DecidableEq

/-- `struct dirent`: where the name begins, and the bytes in front of it. The longest name fits
the buffer. -/
structure DirentLayout where
  nameOff : Nat
  fields : Int → Int → Nat → List UInt8
  length_fields : ∀ ino cookie reclen, (fields ino cookie reclen).length = nameOff
  fits : alignUp (nameOff + 32) 8 ≤ direntsBufSz

/-- The members of `struct IFSNode` that `ifs_readdir` uses. -/
structure IFSEntry where
  name : List UInt8
  inodeNr : Int
  parentInodeNr : Int

/-- An `int32_t`. -/
def int32 (n : UInt32) : Int := n.toBitVec.toInt

/-- `ifs_inode_table[nr]` -/
def Image.entry (im : Image) (nr : Nat) : IFSEntry :=
  let p := im.header + im.nodeTableOffset + sizeofNode * nr
  ⟨getBytes im.mem p 32, int32 (ld32 im.beCpu im.mem (p + 32)),
    int32 (ld32 im.beCpu im.mem (p + 36))⟩

/-- `ifs_header->node_cnt` -/
def Image.nodeCount (im : Image) : Int := int32 (ld32 im.beCpu im.mem (im.header + 8))

/-- A node that is in the table. -/
def Image.nodeAt (im : Image) (cookie : Int) : Except Fault IFSEntry :=
  if 0 ≤ cookie ∧ cookie < im.nodeCount then .ok (im.entry cookie.toNat) else .error .node

/-- `strlen` of a name -/
def strlen (name : List UInt8) : Except Fault Nat :=
  if name.idxOf 0 < name.length then .ok (name.idxOf 0) else .error .name

section Function

variable (im : Image) (dl : DirentLayout) (inodeNr : Int)

/-- The bytes a node has in the buffer. -/
def dirent (node : IFSEntry) (cookie : Int) (len reclen : Nat) : List UInt8 :=
  dl.fields node.inodeNr cookie reclen ++ node.name.take len ++
    List.replicate (reclen - dl.nameOff - len) 0

/-- The loop of `ifs_readdir`, with the buffer as far as it is filled. -/
def readdirLoop (maxReplySz : Nat) : Nat → Int → List UInt8 → Except Fault (Int × List UInt8)
  | 0, _, _ => .error .hang
  | fuel + 1, cookie, buf =>
    if cookie < 0 ∨ im.nodeCount ≤ cookie then .ok (cookie, buf)
    else do
      let node ← im.nodeAt cookie
      if node.name.getD 0 0 ≠ 0 ∧ node.parentInodeNr = inodeNr then
        let len ← strlen node.name
        let reclen := alignUp (dl.nameOff + len + 1) 8
        if buf.length + reclen ≤ maxReplySz then
          readdirLoop maxReplySz fuel (cookie + 1) (buf ++ dirent dl node cookie len reclen)
        else .ok (cookie, buf)
      else readdirLoop maxReplySz fuel (cookie + 1) buf

/-- What the client receives: the bytes, their number as the status, and the offset for the
next request. -/
structure DirReply where
  size : Nat
  data : List UInt8
  offset : Int

/-- `ifs_readdir`, with an offset of 64 bits that is put into an `int`. -/
def ifsReaddir (offset : Int) (sz : UInt32) : Except Fault DirReply := do
  let cookie := Int.bmod offset (2 ^ 32)
  let maxReplySz := if sz.toNat < direntsBufSz then sz.toNat else direntsBufSz
  let (cookie, buf) ← readdirLoop im dl inodeNr maxReplySz (im.nodeCount.toNat + 1) cookie []
  return ⟨buf.length, buf, cookie⟩

/-- Requests of some sizes, each from where the one before has ended. -/
def ifsReaddirs : Int → List UInt32 → Except Fault (List DirReply)
  | _, [] => return []
  | offset, sz :: sizes => do
    let reply ← ifsReaddir im dl inodeNr offset sz
    let replies ← ifsReaddirs reply.offset sizes
    return reply :: replies

end Function

/-! ## The nodes of a directory -/

section Listing

variable (im : Image) (dl : DirentLayout) (inodeNr : Int)

/-- The node has a name, and the directory for its parent. -/
def InDir (nr : Nat) : Prop :=
  (im.entry nr).name.getD 0 0 ≠ 0 ∧ (im.entry nr).parentInodeNr = inodeNr

instance (nr : Nat) : Decidable (InDir im inodeNr nr) := instDecidableAnd

/-- The nodes of the directory from number `k` on, in the order of the table. -/
def nodesFrom (k : Nat) : List Nat :=
  (List.range' k (im.nodeCount.toNat - k)).filter fun nr => InDir im inodeNr nr

/-- The length of the record of a node. -/
def nodeReclen (nr : Nat) : Nat := alignUp (dl.nameOff + (im.entry nr).name.idxOf 0 + 1) 8

/-- The record of a node. -/
def nodeDirent (nr : Nat) : List UInt8 :=
  dirent dl (im.entry nr) nr ((im.entry nr).name.idxOf 0) (nodeReclen im dl nr)

/-- Every name in the table has an end. -/
def NamesEnd : Prop := ∀ nr, nr < im.nodeCount.toNat → 0 ∈ (im.entry nr).name

variable {im} {dl} {inodeNr}

theorem le_alignUp (val : Nat) : val ≤ alignUp val 8 := by
  unfold alignUp
  omega

theorem entry_name_length (im : Image) (nr : Nat) : (im.entry nr).name.length = 32 :=
  getBytes_length ..

/-- A record has the length it says, and that is not 0. -/
theorem nodeDirent_length (h : NamesEnd im) (dl : DirentLayout) {nr : Nat}
    (hnr : nr < im.nodeCount.toNat) :
    (nodeDirent im dl nr).length = nodeReclen im dl nr ∧ 0 < nodeReclen im dl nr := by
  have hend := List.idxOf_lt_length_of_mem (h nr hnr)
  have hle := le_alignUp (dl.nameOff + (im.entry nr).name.idxOf 0 + 1)
  unfold nodeDirent dirent nodeReclen
  rw [List.length_append, List.length_append, List.length_replicate, List.length_take,
    dl.length_fields, Nat.min_eq_left (Nat.le_of_lt hend)]
  omega

/-- The record of a node fits an empty buffer of the handler. -/
theorem nodeReclen_le (h : NamesEnd im) (dl : DirentLayout) {nr : Nat}
    (hnr : nr < im.nodeCount.toNat) : nodeReclen im dl nr ≤ direntsBufSz := by
  have hend := List.idxOf_lt_length_of_mem (h nr hnr)
  rw [entry_name_length] at hend
  have hfits := dl.fits
  unfold nodeReclen
  unfold alignUp at hfits ⊢
  omega

theorem nodesFrom_eq_nil {k : Nat} (hk : im.nodeCount.toNat ≤ k) : nodesFrom im inodeNr k = [] := by
  rw [nodesFrom, Nat.sub_eq_zero_of_le hk]
  rfl

theorem nodesFrom_eq {k : Nat} (hk : k < im.nodeCount.toNat) : nodesFrom im inodeNr k =
    if InDir im inodeNr k then k :: nodesFrom im inodeNr (k + 1)
    else nodesFrom im inodeNr (k + 1) := by
  obtain ⟨n, hn⟩ : ∃ n, im.nodeCount.toNat - k = n + 1 := ⟨im.nodeCount.toNat - k - 1, by omega⟩
  have hn' : im.nodeCount.toNat - (k + 1) = n := by omega
  rw [nodesFrom, nodesFrom, hn, hn', List.range'_succ, List.filter_cons]
  simp only [decide_eq_true_eq]

theorem lt_of_mem_nodesFrom {k nr : Nat} (h : nr ∈ nodesFrom im inodeNr k) :
    nr < im.nodeCount.toNat := by
  have hmem := (List.mem_filter.mp h).1
  rw [List.mem_range'_1] at hmem
  omega

/-! ## The loop -/

/-- From a node of the table on, the loop takes the records that fit, and stops at the first
one that does not. -/
theorem readdirLoop_from (h : NamesEnd im) (dl : DirentLayout) (inodeNr : Int) {maxReplySz : Nat}
    (n : Nat) : ∀ (k : Nat) buf fuel,
    k + n = im.nodeCount.toNat → n < fuel → buf.length ≤ maxReplySz →
    ∃ (k' : Nat) (taken : List Nat), readdirLoop im dl inodeNr maxReplySz fuel k buf =
        .ok ((k' : Int), buf ++ taken.flatMap (nodeDirent im dl)) ∧
      nodesFrom im inodeNr k = taken ++ nodesFrom im inodeNr k' ∧ k' ≤ im.nodeCount.toNat ∧
      (buf ++ taken.flatMap (nodeDirent im dl)).length ≤ maxReplySz ∧
      ∀ nr rest, nodesFrom im inodeNr k' = nr :: rest →
        maxReplySz < (buf ++ taken.flatMap (nodeDirent im dl)).length + nodeReclen im dl nr := by
  induction n with
  | zero =>
    intro k buf fuel hk hfuel hbuf
    obtain ⟨fuel, rfl⟩ := Nat.exists_eq_succ_of_ne_zero (Nat.ne_of_gt hfuel)
    -- the end of the table
    refine ⟨k, [], ?_, rfl, by omega, ?_, ?_⟩
    · rw [readdirLoop, if_pos (.inr (by omega)), List.flatMap_nil, List.append_nil]
    · rwa [List.flatMap_nil, List.append_nil]
    · intro nr rest heq
      rw [nodesFrom_eq_nil (by omega)] at heq
      cases heq
  | succ n ih =>
    intro k buf fuel hk hfuel hbuf
    obtain ⟨fuel, rfl⟩ := Nat.exists_eq_succ_of_ne_zero (Nat.ne_of_gt (Nat.zero_lt_of_lt hfuel))
    have hlt : k < im.nodeCount.toNat := by omega
    have hnode : im.nodeAt k = .ok (im.entry k) := by
      rw [Image.nodeAt, if_pos (by omega)]
      rfl
    have hend := List.idxOf_lt_length_of_mem (h k hlt)
    have hnext : ((k : Int) + 1) = ((k + 1 : Nat) : Int) := rfl
    rw [readdirLoop, if_neg (by omega), hnode, nodesFrom_eq hlt]
    change ∃ (k' : Nat) (taken : List Nat), (if InDir im inodeNr k then _ else _) = _ ∧ _
    by_cases hdir : InDir im inodeNr k
    · rw [if_pos hdir, if_pos hdir, strlen, if_pos hend]
      change ∃ (k' : Nat) (taken : List Nat), (if buf.length + nodeReclen im dl k ≤ maxReplySz then
        readdirLoop im dl inodeNr maxReplySz fuel (k + 1) (buf ++ nodeDirent im dl k) else _) =
          _ ∧ _
      by_cases hfit : buf.length + nodeReclen im dl k ≤ maxReplySz
      · -- the record is taken
        rw [if_pos hfit, hnext]
        obtain ⟨k', taken, hrun, hnodes, hk', hlen, hfull⟩ := ih (k + 1) (buf ++ nodeDirent im dl k)
          fuel (by omega) (by omega)
          (by rw [List.length_append, (nodeDirent_length h dl hlt).1]; exact hfit)
        have hbuf' : buf ++ nodeDirent im dl k ++ taken.flatMap (nodeDirent im dl) =
            buf ++ (k :: taken).flatMap (nodeDirent im dl) := by
          rw [List.flatMap_cons, List.append_assoc]
        rw [hbuf'] at hrun hlen hfull
        exact ⟨k', k :: taken, hrun, by rw [hnodes]; rfl, hk', hlen, hfull⟩
      · -- it is for the next request
        rw [if_neg hfit]
        refine ⟨k, [], ?_, ?_, Nat.le_of_lt hlt, ?_, ?_⟩
        · rw [List.flatMap_nil, List.append_nil]
        · rw [nodesFrom_eq hlt, if_pos hdir]
          rfl
        · rwa [List.flatMap_nil, List.append_nil]
        · intro nr rest heq
          rw [nodesFrom_eq hlt, if_pos hdir, List.cons.injEq] at heq
          rw [← heq.1, List.flatMap_nil, List.append_nil]
          omega
    · -- a node of another directory is gone past
      rw [if_neg hdir, if_neg hdir, hnext]
      exact ih (k + 1) buf fuel (by omega) (by omega) hbuf

/-! ## Requests -/

theorem bmod_cookie {k : Nat} (hk : k ≤ im.nodeCount.toNat) : Int.bmod k (2 ^ 32) = k := by
  have hlt := (ld32 im.beCpu im.mem (im.header + 8)).toBitVec.toInt_lt
  change im.nodeCount < 2 ^ 31 at hlt
  apply Int.bmod_eq_of_le
  · omega
  · omega

/-- The reply to any request: nothing is read that is not there, and no more is sent than was
asked for, or than the buffer takes. -/
theorem ifsReaddir_reply (h : NamesEnd im) (offset : Int) (sz : UInt32) :
    ∃ reply, ifsReaddir im dl inodeNr offset sz = .ok reply ∧ reply.size = reply.data.length ∧
      reply.size ≤ sz.toNat ∧ reply.size ≤ direntsBufSz := by
  obtain ⟨cookie, buf, hloop, hsz, hbuf⟩ : ∃ cookie buf, readdirLoop im dl inodeNr
      (if sz.toNat < direntsBufSz then sz.toNat else direntsBufSz) (im.nodeCount.toNat + 1)
      (Int.bmod offset (2 ^ 32)) [] = .ok (cookie, buf) ∧ buf.length ≤ sz.toNat ∧
      buf.length ≤ direntsBufSz := by
    generalize Int.bmod offset (2 ^ 32) = cookie
    by_cases hin : cookie < 0 ∨ im.nodeCount ≤ cookie
    · rw [readdirLoop, if_pos hin]
      exact ⟨cookie, [], rfl, Nat.zero_le _, Nat.zero_le _⟩
    · obtain ⟨k, rfl⟩ : ∃ k : Nat, cookie = k := ⟨cookie.toNat, by omega⟩
      obtain ⟨k', taken, hrun, -, -, hlen, -⟩ := readdirLoop_from h dl inodeNr
        (im.nodeCount.toNat - k) k [] (im.nodeCount.toNat + 1) (by omega) (by omega)
        (Nat.zero_le (if sz.toNat < direntsBufSz then sz.toNat else direntsBufSz))
      exact ⟨k', _, hrun, by split at hlen <;> omega, by split at hlen <;> omega⟩
  refine ⟨⟨buf.length, buf, cookie⟩, ?_, rfl, hsz, hbuf⟩
  unfold ifsReaddir
  dsimp only
  rw [hloop]
  rfl

/-- A request from a node of the table on: it takes some of the nodes that are left, and none
only if there are none. -/
theorem ifsReaddir_page (h : NamesEnd im) {k : Nat} (hk : k ≤ im.nodeCount.toNat) {sz : UInt32}
    (hroom : ∀ nr ∈ nodesFrom im inodeNr k, nodeReclen im dl nr ≤ sz.toNat) :
    ∃ (k' : Nat) (taken : List Nat) (reply : DirReply),
      ifsReaddir im dl inodeNr k sz = .ok reply ∧ reply.offset = k' ∧
      reply.data = taken.flatMap (nodeDirent im dl) ∧ reply.size = reply.data.length ∧
      nodesFrom im inodeNr k = taken ++ nodesFrom im inodeNr k' ∧ k' ≤ im.nodeCount.toNat ∧
      (taken = [] → nodesFrom im inodeNr k' = []) := by
  obtain ⟨k', taken, hrun, hnodes, hk', -, hfull⟩ := readdirLoop_from h dl inodeNr
    (im.nodeCount.toNat - k) k [] (im.nodeCount.toNat + 1) (by omega) (by omega)
    (Nat.zero_le (if sz.toNat < direntsBufSz then sz.toNat else direntsBufSz))
  rw [List.nil_append] at hrun hfull
  let buf := taken.flatMap (nodeDirent im dl)
  refine ⟨k', taken, ⟨buf.length, buf, k'⟩, ?_, rfl, rfl, rfl, hnodes, hk', fun hnil => ?_⟩
  · unfold ifsReaddir
    dsimp only
    rw [bmod_cookie hk, hrun]
    rfl
  · subst hnil
    cases hleft : nodesFrom im inodeNr k' with
    | nil => rfl
    | cons nr rest =>
      -- the first that is left would have fitted
      have hbig := hfull nr rest hleft
      have hmem : nr ∈ nodesFrom im inodeNr k := by
        rw [hnodes, hleft]
        exact List.mem_append_right _ (List.mem_cons_self ..)
      have hsz := hroom nr hmem
      have hbuf := nodeReclen_le h dl (lt_of_mem_nodesFrom hmem)
      rw [List.flatMap_nil, List.length_nil] at hbig
      split at hbig <;> omega

variable (im) (dl)

/-- A reply with the records of some nodes, of a size that is 0 only if there are none. -/
structure Sends (page : List Nat) (reply : DirReply) : Prop where
  data : reply.data = page.flatMap (nodeDirent im dl)
  size : reply.size = reply.data.length
  positive : page ≠ [] → 0 < reply.size

variable {im} {dl}

/-- Requests from a node of the table on list what is left of the directory. -/
theorem ifsReaddirs_from (h : NamesEnd im) (sizes : List UInt32) : ∀ k : Nat,
    k ≤ im.nodeCount.toNat →
    (∀ sz ∈ sizes, ∀ nr ∈ nodesFrom im inodeNr k, nodeReclen im dl nr ≤ sz.toNat) →
    ∃ replies pages, ifsReaddirs im dl inodeNr k sizes = .ok replies ∧
      pages.length = sizes.length ∧ Lists (nodesFrom im inodeNr k) pages ∧
      List.Forall₂ (Sends im dl) pages replies := by
  induction sizes with
  | nil => exact fun k _ _ => ⟨[], [], rfl, rfl, .nil _, .nil⟩
  | cons sz sizes ih =>
    intro k hk hroom
    obtain ⟨k', taken, reply, hrun, hoff, hdata, hsize, hnodes, hk', hstop⟩ := ifsReaddir_page h hk
      (hroom sz (List.mem_cons_self ..))
    obtain ⟨replies, pages, hruns, hlen, hlists, hsends⟩ := ih k' hk' fun sz hsz nr hnr =>
      hroom sz (List.mem_cons_of_mem _ hsz) nr (by
        rw [hnodes]
        exact List.mem_append_right _ hnr)
    refine ⟨reply :: replies, taken :: pages, ?_, ?_, ?_,
      .cons ⟨hdata, hsize, fun hne => ?_⟩ hsends⟩
    · rw [ifsReaddirs, hrun]
      change (ifsReaddirs im dl inodeNr reply.offset sizes >>= fun replies => _) = _
      rw [hoff, hruns]
      rfl
    · rw [List.length_cons, List.length_cons, hlen]
    · rw [hnodes]
      exact hlists.cons hstop
    · obtain ⟨nr, rest, rfl⟩ := List.exists_cons_of_ne_nil hne
      have hmem : nr ∈ nodesFrom im inodeNr k := by
        rw [hnodes]
        exact List.mem_cons_self ..
      obtain ⟨hreclen, hpos⟩ := nodeDirent_length h dl (lt_of_mem_nodesFrom hmem)
      rw [hsize, hdata, List.flatMap_cons, List.length_append]
      omega

/-- Requests with room for each record, from offset 0 on and each from where the one before has
ended, list the directory. No request, from any offset and of any size, gets more than it asked
for or than the buffer takes, or makes the function read what is not in the table. -/
theorem ifsReaddirs_list (h : NamesEnd im) (dl : DirentLayout) (inodeNr : Int) :
    (∀ sizes : List UInt32,
      (∀ sz ∈ sizes, ∀ nr ∈ nodesFrom im inodeNr 0, nodeReclen im dl nr ≤ sz.toNat) →
      ∃ replies pages, ifsReaddirs im dl inodeNr 0 sizes = .ok replies ∧
        pages.length = sizes.length ∧ Lists (nodesFrom im inodeNr 0) pages ∧
        List.Forall₂ (Sends im dl) pages replies ∧
        ((nodesFrom im inodeNr 0).length < sizes.length → [] ∈ pages)) ∧
    ∀ (offset : Int) (sz : UInt32), ∃ reply, ifsReaddir im dl inodeNr offset sz = .ok reply ∧
      reply.size = reply.data.length ∧ reply.size ≤ sz.toNat ∧ reply.size ≤ direntsBufSz := by
  refine ⟨fun sizes hroom => ?_, fun offset sz => ifsReaddir_reply h offset sz⟩
  obtain ⟨replies, pages, hrun, hlen, hlists, hsends⟩ := ifsReaddirs_from h sizes 0
    (Nat.zero_le _) hroom
  exact ⟨replies, pages, hrun, hlen, hlists, hsends,
    fun hmore => hlists.reaches_end (by rw [hlen]; exact hmore)⟩

end Listing

/-! ## A directory with two entries -/

/-- Three nodes from byte 16 on: `a` and `c` in the directory 0, and `b` in `a`, which has the
inode number 1. -/
def sampleDirImage : Image where
  mem := fun a => match a with
    | 4 => 16 | 8 => 3 | 12 => 196
    | 16 => 0x61 | 48 => 1
    | 76 => 0x62 | 108 => 2 | 112 => 1
    | 136 => 0x63 | 168 => 3
    | _ => 0
  header := 0
  beCpu := false

/-- Three numbers of 32 bits in front of the name. -/
def sampleDirent : DirentLayout where
  nameOff := 12
  fields := fun ino cookie reclen => [ino, cookie, (reclen : Int)].flatMap fun n =>
    (List.range 4).map fun k => UInt8.ofNat ((n % 2 ^ 32).toNat / 256 ^ k)
  length_fields := fun _ _ _ => rfl
  fits := by decide

theorem sampleDirImage_names : NamesEnd sampleDirImage := by
  intro nr hnr
  change nr < 3 at hnr
  interval_cases nr <;> decide

theorem sampleDirImage_nodes : nodesFrom sampleDirImage 0 0 = [0, 2] := by decide +kernel

/-- `ifsReaddirs_list` at three requests with room for one record. -/
theorem ifsReaddirs_list_sample : ∃ replies pages,
    ifsReaddirs sampleDirImage sampleDirent 0 0 [16, 16, 16] = .ok replies ∧ pages.length = 3 ∧
      Lists [0, 2] pages ∧ List.Forall₂ (Sends sampleDirImage sampleDirent) pages replies ∧
      [] ∈ pages := by
  have hsizes : ∀ sz ∈ List.replicate 3 (16 : UInt32), ∀ nr ∈ nodesFrom sampleDirImage 0 0,
      nodeReclen sampleDirImage sampleDirent nr ≤ sz.toNat := by
    intro sz hsz
    obtain rfl := List.eq_of_mem_replicate hsz
    rw [sampleDirImage_nodes]
    decide +kernel
  obtain ⟨replies, pages, hrun, hlen, hpages, hsends, hend⟩ :=
    (ifsReaddirs_list sampleDirImage_names sampleDirent 0).1 _ hsizes
  rw [sampleDirImage_nodes] at hpages hend
  exact ⟨replies, pages, hrun, hlen, hpages, hsends, hend (Nat.lt_succ_self 2)⟩

/-- Two records of 16 bytes, one a request, and then nothing. -/
example : (ifsReaddirs sampleDirImage sampleDirent 0 0 [16, 16, 16]).toOption.map
    (fun replies => replies.map fun reply => (reply.size, reply.offset)) =
      some [(16, 2), (16, 3), (0, 3)] := by
  decide +kernel

end Cheviot.Ifs
