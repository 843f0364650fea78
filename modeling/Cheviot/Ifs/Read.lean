import Cheviot.Lib.Bytes

/-!
# Reading from the initial file system: `ifs_read`

The image is mapped read-only into the handler's memory; `ifs_read` sends the
client a part of it, found from the file's node and the offset and count of the
request. The number of bytes left in the file is computed as
`rnode->file_size - offset`, a 64-bit difference stored in a `size_t`, so it
wraps around for an offset past the end of the file.

* `ifsRead_eq_iff` — when a reply is the part of the file it should be.
* `ifsReads_eq_iff` — the same over a run of requests.
* `ifsReads_congr` — requests that are answered so learn nothing but the file.

Mirroring notes:
- Pointers and `size_t` have the 32 bits of the target. `count` is a `size_t`,
  `offset` an `off64_t` that is not negative.
- `writemsg` sends what it is given, so a reply is the status and the bytes.
-/

namespace Cheviot.Ifs

open Cheviot.Bytes

/-! ## The image and the function -/

/-- The handler's memory with the image in it. -/
structure Image where
  /-- the bytes of the address space -/
  mem : Buf
  /-- `ifs_header`, where the image is mapped -/
  header : Nat
  /-- the byte order of the host -/
  beCpu : Bool

/-- The members of `struct IFSNode` that `ifs_read` uses. -/
structure IFSNode where
  fileOffset : Nat
  fileSize : Nat
  deriving DecidableEq

/-- `sizeof (struct IFSNode)`, which is packed. -/
def sizeofNode : Nat := 60

namespace Image

variable (im : Image)

/-- `ifs_header->node_table_offset` -/
def nodeTableOffset : Nat := (ld32 im.beCpu im.mem (im.header + 4)).toNat

/-- `ifs_header->node_cnt` -/
def nodeCnt : Nat := (ld32 im.beCpu im.mem (im.header + 8)).toNat

/-- `ifs_header->ifs_size` -/
def ifsSize : Nat := (ld32 im.beCpu im.mem (im.header + 12)).toNat

/-- `ifs_inode_table[nr]` -/
def node (nr : Nat) : IFSNode :=
  let p := im.header + im.nodeTableOffset + sizeofNode * nr
  ⟨(ld32 im.beCpu im.mem (p + 52)).toNat, (ld32 im.beCpu im.mem (p + 56)).toNat⟩

/-- The bytes of a file. -/
def fileBytes (nr : Nat) : List UInt8 :=
  getBytes im.mem (im.header + (im.node nr).fileOffset) (im.node nr).fileSize

end Image

/-- The arguments of a read request. -/
structure ReadArgs where
  inodeNr : Nat
  offset : Nat
  count : UInt32
  offset_lt : offset < 2 ^ 63

/-- What the client receives: the status of the reply and the bytes sent before it. -/
structure Reply where
  status : Int
  data : List UInt8
  deriving DecidableEq

/-- `(ssize_t) n` -/
def ssizeT (n : Nat) : Int := if n < 2 ^ 31 then n else n - 2 ^ 32

/-- `remaining`: the 64-bit difference in a `size_t`. -/
def remaining (fileSize offset : Nat) : Nat := (((fileSize : Int) - offset) % 2 ^ 32).toNat

/-- `ifs_read`. -/
def ifsRead (im : Image) (req : ReadArgs) : Reply :=
  let rnode := im.node req.inodeNr
  let src := im.header + rnode.fileOffset + req.offset
  let n := min req.count.toNat (remaining rnode.fileSize req.offset)
  if 1 ≤ ssizeT n then ⟨ssizeT n, (List.range n).map fun k => im.mem ((src + k) % 2 ^ 32)⟩
  else ⟨ssizeT n, []⟩

/-! ## What a reply should be -/

/-- The reply a client may expect: as much of the file from the offset on as it asked for. -/
def fileReply (file : List UInt8) (req : ReadArgs) : Reply :=
  let n : Nat := min req.count.toNat (file.length - req.offset)
  ⟨n, (file.drop req.offset).take req.count.toNat⟩

/-- The node table and the files lie within the image, and that within the address space. -/
structure ValidImage (im : Image) : Prop where
  mapped : im.header + im.ifsSize ≤ 2 ^ 32
  table : im.nodeTableOffset + sizeofNode * im.nodeCnt ≤ im.ifsSize
  file : ∀ nr, nr < im.nodeCnt → (im.node nr).fileOffset + (im.node nr).fileSize ≤ im.ifsSize

/-- The requests `ifs_read` answers from the file: up to 2 GiB from within it, and past its
end either nothing or from an offset that the wrap-around takes to the end. -/
def Served (fileSize : Nat) (req : ReadArgs) : Prop :=
  (req.offset ≤ fileSize ∧ min req.count.toNat (fileSize - req.offset) < 2 ^ 31) ∨
  (fileSize < req.offset ∧ (req.count = 0 ∨ 2 ^ 32 ∣ req.offset - fileSize))

instance (fileSize : Nat) (req : ReadArgs) : Decidable (Served fileSize req) :=
  inferInstanceAs (Decidable (_ ∨ _))

section Reply

variable {im : Image}

theorem fileSize_lt (im : Image) (nr : Nat) : (im.node nr).fileSize < 2 ^ 32 :=
  UInt32.toNat_lt _

theorem fileBytes_length (im : Image) (nr : Nat) :
    (im.fileBytes nr).length = (im.node nr).fileSize := getBytes_length _ _ _

theorem remaining_of_le {fileSize offset : Nat} (hsize : fileSize < 2 ^ 32)
    (h : offset ≤ fileSize) : remaining fileSize offset = fileSize - offset := by
  unfold remaining
  omega

/-- Past the end of the file, nothing is left exactly at the multiples of 2^32. -/
theorem remaining_past {fileSize offset : Nat} (h : fileSize < offset) :
    remaining fileSize offset = 0 ↔ 2 ^ 32 ∣ offset - fileSize := by
  unfold remaining
  omega

theorem ssizeT_eq_iff {n m : Nat} (hn : n < 2 ^ 32) : ssizeT n = m ↔ n = m ∧ n < 2 ^ 31 := by
  unfold ssizeT
  split <;> omega

/-- The bytes sent from within a file are the file's own. -/
theorem fileBytes_part (hv : ValidImage im) {nr : Nat} (hnr : nr < im.nodeCnt) {offset n : Nat}
    (h : offset + n ≤ (im.node nr).fileSize) :
    (List.range n).map (fun k =>
      im.mem ((im.header + (im.node nr).fileOffset + offset + k) % 2 ^ 32)) =
      ((im.fileBytes nr).drop offset).take n := by
  have hmapped := hv.mapped
  have hfile := hv.file nr hnr
  refine List.ext_getElem ?_ fun k hk hk' => ?_
  · simp [Image.fileBytes]
    omega
  · simp only [List.length_map, List.length_range] at hk
    simp only [Image.fileBytes, getBytes, List.getElem_map, List.getElem_range,
      List.getElem_take, List.getElem_drop]
    rw [Nat.mod_eq_of_lt (by omega)]
    congr 1
    omega

/-- A reply is right as soon as its count is. -/
theorem ifsRead_eq_iff_count (hv : ValidImage im) {req : ReadArgs}
    (hnr : req.inodeNr < im.nodeCnt) :
    ifsRead im req = fileReply (im.fileBytes req.inodeNr) req ↔
      min req.count.toNat (remaining (im.node req.inodeNr).fileSize req.offset) =
        min req.count.toNat ((im.node req.inodeNr).fileSize - req.offset) ∧
      min req.count.toNat ((im.node req.inodeNr).fileSize - req.offset) < 2 ^ 31 := by
  have hcount := req.count.toNat_lt
  have hlen := fileBytes_length im req.inodeNr
  unfold ifsRead fileReply
  rw [hlen]
  simp only
  generalize hn : min req.count.toNat (remaining (im.node req.inodeNr).fileSize req.offset) = n
  generalize hm : min req.count.toNat ((im.node req.inodeNr).fileSize - req.offset) = m
  have hiff : ssizeT n = m ↔ n = m ∧ m < 2 ^ 31 := by
    rw [ssizeT_eq_iff (by omega)]
    omega
  rw [← hiff]
  constructor
  · intro h
    split at h <;> exact congrArg Reply.status h
  · intro h
    obtain ⟨rfl, hlt⟩ := hiff.mp h
    -- what is expected of the data is its first `n` bytes
    have htake : ((im.fileBytes req.inodeNr).drop req.offset).take req.count.toNat =
        ((im.fileBytes req.inodeNr).drop req.offset).take n := by
      rw [List.take_eq_take_iff, List.length_drop, hlen]
      omega
    rw [h, htake]
    split
    next hpos => rw [fileBytes_part hv hnr (by omega)]
    next hzero =>
      have h0 : n = 0 := by omega
      rw [h0, List.take_zero]

/-- A request is answered from its file if and only if it is one of those `Served` names. -/
theorem ifsRead_eq_iff (hv : ValidImage im) {req : ReadArgs} (hnr : req.inodeNr < im.nodeCnt) :
    ifsRead im req = fileReply (im.fileBytes req.inodeNr) req ↔
      Served (im.node req.inodeNr).fileSize req := by
  have hsize := fileSize_lt im req.inodeNr
  have hcount : req.count = 0 ↔ req.count.toNat = 0 := by
    rw [← UInt32.toNat_inj]
    rfl
  rw [ifsRead_eq_iff_count hv hnr]
  unfold Served
  rw [hcount]
  by_cases hle : req.offset ≤ (im.node req.inodeNr).fileSize
  · rw [remaining_of_le hsize hle]
    omega
  · have hlt : (im.node req.inodeNr).fileSize < req.offset := by omega
    rw [← remaining_past hlt]
    omega

/-! ## Runs of requests -/

/-- The replies to a run of read requests; `ifs_read` keeps no state. -/
def ifsReads (im : Image) (reqs : List ReadArgs) : List Reply := reqs.map (ifsRead im)

/-- The replies the clients may expect. -/
def fileReplies (im : Image) (reqs : List ReadArgs) : List Reply :=
  reqs.map fun req => fileReply (im.fileBytes req.inodeNr) req

/-- A run is answered from the files asked for if and only if every request of it is served. -/
theorem ifsReads_eq_iff (hv : ValidImage im) {reqs : List ReadArgs}
    (hreqs : ∀ req ∈ reqs, req.inodeNr < im.nodeCnt) :
    ifsReads im reqs = fileReplies im reqs ↔
      ∀ req ∈ reqs, Served (im.node req.inodeNr).fileSize req := by
  unfold ifsReads fileReplies
  rw [List.map_inj_left]
  constructor
  · intro h req hreq
    exact (ifsRead_eq_iff hv (hreqs req hreq)).mp (h req hreq)
  · intro h req hreq
    exact (ifsRead_eq_iff hv (hreqs req hreq)).mpr (h req hreq)

end Reply

/-- Two images with the same files, whatever else is in them, give served
requests the same replies. -/
theorem ifsReads_congr {im im' : Image} (hv : ValidImage im) (hv' : ValidImage im')
    {reqs : List ReadArgs}
    (hreqs : ∀ req ∈ reqs, req.inodeNr < im.nodeCnt ∧ req.inodeNr < im'.nodeCnt)
    (hfiles : ∀ req ∈ reqs, im'.fileBytes req.inodeNr = im.fileBytes req.inodeNr)
    (hserved : ∀ req ∈ reqs, Served (im.node req.inodeNr).fileSize req) :
    ifsReads im' reqs = ifsReads im reqs := by
  refine List.map_congr_left fun req hreq => ?_
  obtain ⟨hnr, hnr'⟩ := hreqs req hreq
  have hlen := congrArg List.length (hfiles req hreq)
  rw [fileBytes_length, fileBytes_length] at hlen
  have hserved' : Served (im'.node req.inodeNr).fileSize req := by
    rw [hlen]
    exact hserved req hreq
  rw [(ifsRead_eq_iff hv hnr).mpr (hserved req hreq), (ifsRead_eq_iff hv' hnr').mpr hserved',
    hfiles req hreq]

/-! ## An image with two files -/

/-- Two nodes from byte 16 on, then the files: `AAAA` at 136 and `BBBB` right behind it. -/
def sampleImage : Image where
  mem := fun a => match a with
    | 4 => 16 | 8 => 2 | 12 => 144
    | 68 => 136 | 72 => 4 | 128 => 140 | 132 => 4
    | 136 | 137 | 138 | 139 => 0x41
    | 140 | 141 | 142 | 143 => 0x42
    | _ => 0
  header := 0
  beCpu := false

theorem sampleImage_valid : ValidImage sampleImage where
  mapped := by decide
  table := by decide
  file := by decide

/-- `ifsReads_eq_iff` at reads in and across the end of the first file. -/
theorem ifsReads_eq_iff_sample :
    ifsReads sampleImage [⟨0, 1, 10, by decide⟩, ⟨0, 4, 10, by decide⟩, ⟨0, 0, 4, by decide⟩] =
      fileReplies sampleImage
        [⟨0, 1, 10, by decide⟩, ⟨0, 4, 10, by decide⟩, ⟨0, 0, 4, by decide⟩] :=
  (ifsReads_eq_iff sampleImage_valid (by decide)).mpr (by decide)

/-- Three bytes from one byte past the end of the first file are three bytes of the second. -/
theorem ifsRead_leak :
    ValidImage sampleImage ∧ 0 < sampleImage.nodeCnt ∧
      ifsReads sampleImage [⟨0, 5, 3, by decide⟩] = [⟨3, [0x42, 0x42, 0x42]⟩] ∧
      fileReplies sampleImage [⟨0, 5, 3, by decide⟩] = [⟨0, []⟩] :=
  ⟨sampleImage_valid, by decide, by decide, by decide⟩

end Cheviot.Ifs
