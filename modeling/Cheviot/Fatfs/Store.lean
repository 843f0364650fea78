import Cheviot.Fatfs.Main
import Cheviot.Lib.ByteFile

/-!
# The server as a store of files

What the clients of a volume see of its files: bytes, of which the ones behind the size are
zero, and a number of free clusters. A lookup brings a file back to the size in its directory
entry, which no write changes. A write that runs out of clusters keeps what it has got, but
not the new size. A file that has been looked up cannot be removed any more.

* `Catalog` — what no message changes.
* `Store`, `StoreStep` — the files, and what a message does to them and is answered.
* `Store.restart` — what is left of them when the server is started anew.
-/

namespace Cheviot.Fatfs

open Cheviot.Bytes Cheviot.Files

variable {ι : Type}

/-- What does not change: which file a name of the root directory is, and what is listed of
it, when some files have been removed; and of each file its inode number, the size in its
entry, whether it is a directory, and how many of its clusters the search for a free one does
not come to. -/
structure Catalog (ι : Type) where
  clusterSize : Nat
  uid : Nat
  gid : Nat
  names : List ι → List UInt8 → Option ι → Prop
  lists : List ι → Nat → List Dirent → Nat → Nat → Prop
  dosName : List UInt8 → Prop
  inodeNr : ι → Nat
  recorded : ι → Nat
  isDir : ι → Bool
  lost : ι → Nat

/-- The files, the clusters they have and those that are left, the files that have been looked
up and the ones that have been removed. -/
structure Store (ι : Type) where
  file : ι → ByteFile
  clusters : ι → Nat
  free : Nat
  opened : ι → Prop
  gone : List ι

/-! ## What is done to them -/

section Operations

variable (cat : Catalog ι) (s : Store ι)

/-- How many of `n` bytes there is room for. -/
def Store.fits (k : ι) (offset n : Nat) : Nat :=
  min n ((s.clusters k + s.free) * cat.clusterSize - offset)

/-- The clusters of a file when `n` bytes have been put into it. -/
def Store.clustersAfter (k : ι) (offset n : Nat) : Nat :=
  max (s.clusters k) ((offset + n + cat.clusterSize - 1) / cat.clusterSize)

/-- A file after a write. -/
def Store.fileAfter (k : ι) (offset : Nat) (data : List UInt8) : ByteFile :=
  let n := s.fits cat k offset data.length
  let put := (s.file k).write offset (data.take n)
  if n = data.length then put else put.cut (s.file k).size

/-- The removal of a file. -/
def Store.remove (k : ι) : Store ι :=
  { s with
    free := s.free + (s.clusters k - cat.lost k)
    gone := k :: s.gone }

/-- A new start of the server. -/
def Store.restart : Store ι :=
  { s with
    file := fun k => (s.file k).cut (cat.recorded k)
    opened := fun _ => False }

variable {cat s} in
/-- A write for which there is room. -/
theorem Store.fileAfter_of_fits {k : ι} {offset : Nat} {data : List UInt8}
    (h : s.fits cat k offset data.length = data.length) :
    s.fileAfter cat k offset data = (s.file k).write offset data := by
  unfold Store.fileAfter
  rw [h, if_pos rfl, List.take_length]

variable [DecidableEq ι]

/-- A lookup of a file. -/
def Store.look (k : ι) : Store ι :=
  { s with
    file := Function.update s.file k ((s.file k).cut (cat.recorded k))
    opened := fun l => l = k ∨ s.opened l }

/-- A write to a file: as much as fits, and only with all of it a new size. -/
def Store.write (k : ι) (offset : Nat) (data : List UInt8) : Store ι :=
  let after := s.clustersAfter cat k offset (s.fits cat k offset data.length)
  { s with
    file := Function.update s.file k (s.fileAfter cat k offset data)
    clusters := Function.update s.clusters k after
    free := s.free - (after - s.clusters k) }

variable {k l : ι}

@[simp] theorem Store.look_self : (s.look cat k).file k = (s.file k).cut (cat.recorded k) :=
  Function.update_self ..

@[simp] theorem Store.look_ne (h : l ≠ k) : (s.look cat k).file l = s.file l :=
  Function.update_of_ne h ..

@[simp] theorem Store.write_self (offset : Nat) (data : List UInt8) :
    (s.write cat k offset data).file k = s.fileAfter cat k offset data :=
  Function.update_self ..

@[simp] theorem Store.write_ne (h : l ≠ k) (offset : Nat) (data : List UInt8) :
    (s.write cat k offset data).file l = s.file l :=
  Function.update_of_ne h ..

end Operations

/-! ## Messages -/

/-- The mode of a file in the reply to a lookup. -/
def Catalog.mode (cat : Catalog ι) (k : ι) : Nat :=
  if cat.isDir k then 0o777 ||| 0o040000 else 0o777

/-- An inode number without a node. -/
def Store.Unknown (cat : Catalog ι) (s : Store ι) (n : Nat) : Prop :=
  n ≠ 0 ∧ ∀ k, s.opened k → cat.inodeNr k ≠ n

/-- The reply to a read: a single byte is counted but not sent. -/
def readReply (bytes : List UInt8) : Reply :=
  ⟨bytes.length, .none, .bytes (if 1 < bytes.length then bytes else [])⟩

/-- The messages the store answers, what they do to it and the replies. Inode 0 is the root.
An `rmdir` that succeeds is answered as if it had not, and a `mkdir` that has made nothing as
if it had. -/
inductive StoreStep [DecidableEq ι] (cat : Catalog ι) :
    Store ι → Message × List Reply → Store ι → Prop where
  | found {s name k} (hfits : name.length + 1 ≤ 256) (hname : cat.names s.gone name (some k)) :
      StoreStep cat s (.lookup 0 name, [⟨0, .lookup (cat.inodeNr k) (cat.recorded k) cat.uid
        cat.gid (cat.mode k), .bytes []⟩]) (s.look cat k)
  | missing {s name} (hfits : name.length + 1 ≤ 256) (hname : cat.names s.gone name none) :
      StoreStep cat s (.lookup 0 name, [⟨-eNoEnt, .none, .bytes []⟩]) s
  | noDirectory {s n name} (hfits : name.length + 1 ≤ 256) (hn : s.Unknown cat n) :
      StoreStep cat s (.lookup n name, [⟨-ePerm, .none, .bytes []⟩]) s
  | read {s k} (hk : s.opened k) (offset sz : Nat) :
      StoreStep cat s (.read (cat.inodeNr k) offset sz,
        [readReply ((s.file k).read offset (min sz 0x10000))]) s
  | readRoot {s} (offset sz : Nat) : StoreStep cat s (.read 0 offset sz, [readReply []]) s
  | readNone {s n} (hn : s.Unknown cat n) (offset sz : Nat) :
      StoreStep cat s (.read n offset sz, [⟨-eInval, .none, .bytes []⟩]) s
  | write {s k offset data} (hk : s.opened k) (hlen : data.length ≤ 512)
      (hin : offset ≤ (s.file k).size) (hbits : offset + data.length < 2 ^ 32) :
      StoreStep cat s (.write (cat.inodeNr k) offset data,
        [⟨s.fits cat k offset data.length, .none, .bytes []⟩]) (s.write cat k offset data)
  | writeNone {s n} (hn : s.Unknown cat n) (offset : Nat) (data : List UInt8) :
      StoreStep cat s (.write n offset data, [⟨-eInval, .none, .bytes []⟩]) s
  | create {s s' n offset sz replies}
      (h : StoreStep cat s (.read n offset sz, replies) s') :
      StoreStep cat s (.create n offset sz, ⟨-eNotSup, .none, .bytes []⟩ :: replies) s'
  | readdir {s offset nbytes dirents sz cookie} (hlist : cat.lists s.gone offset dirents sz cookie) :
      StoreStep cat s (.readdir 0 offset nbytes,
        [⟨sz, .readdir cookie nbytes, .direntsBuf dirents nbytes⟩]) s
  | unlink {s name k} (hfits : name.length + 1 ≤ 256) (hname : cat.names s.gone name (some k))
      (hk : ¬ s.opened k) (hdir : cat.isDir k = false) :
      StoreStep cat s (.unlink 0 name, [⟨0, .none, .bytes []⟩]) (s.remove cat k)
  | unlinkDir {s name k} (hfits : name.length + 1 ≤ 256) (hname : cat.names s.gone name (some k))
      (hk : ¬ s.opened k) (hdir : cat.isDir k = true) :
      StoreStep cat s (.unlink 0 name, [⟨-eIsDir, .none, .bytes []⟩]) s
  | unlinkOpened {s name k} (hfits : name.length + 1 ≤ 256)
      (hname : cat.names s.gone name (some k)) (hk : s.opened k) : StoreStep cat s (.unlink 0 name,
        [⟨if cat.isDir k then -eIsDir else -eBusy, .none, .bytes []⟩]) (s.look cat k)
  | unlinkMissing {s name} (hfits : name.length + 1 ≤ 256) (hname : cat.names s.gone name none) :
      StoreStep cat s (.unlink 0 name, [⟨-eNoEnt, .none, .bytes []⟩]) s
  | unlinkNone {s n} (hn : s.Unknown cat n) (name : List UInt8) :
      StoreStep cat s (.unlink n name, [⟨-eInval, .none, .bytes []⟩]) s
  | rmdir {s name k} (hfits : name.length + 1 ≤ 256) (hname : cat.names s.gone name (some k))
      (hk : ¬ s.opened k) (hdir : cat.isDir k = true) :
      StoreStep cat s (.rmdir 0 name, [⟨-eInval, .none, .bytes []⟩]) (s.remove cat k)
  | rmdirFile {s name k} (hfits : name.length + 1 ≤ 256) (hname : cat.names s.gone name (some k))
      (hk : ¬ s.opened k) (hdir : cat.isDir k = false) :
      StoreStep cat s (.rmdir 0 name, [⟨-eNotDir, .none, .bytes []⟩]) s
  | rmdirOpened {s name k} (hfits : name.length + 1 ≤ 256)
      (hname : cat.names s.gone name (some k)) (hk : s.opened k) : StoreStep cat s (.rmdir 0 name,
        [⟨if cat.isDir k then -eBusy else -eNotDir, .none, .bytes []⟩]) (s.look cat k)
  | rmdirMissing {s name} (hfits : name.length + 1 ≤ 256) (hname : cat.names s.gone name none) :
      StoreStep cat s (.rmdir 0 name, [⟨-eNoEnt, .none, .bytes []⟩]) s
  | rmdirNone {s n} (hn : s.Unknown cat n) (name : List UInt8) :
      StoreStep cat s (.rmdir n name, [⟨-eInval, .none, .bytes []⟩]) s
  | mkdir {s name} (hfits : name.length + 1 ≤ 256) (hname : cat.dosName name) :
      StoreStep cat s (.mkdir 0 name, [⟨0, .none, .bytes []⟩]) s
  | mkdirRefused {s name} (hfits : name.length + 1 ≤ 256) (hname : ¬ cat.dosName name) (n : Nat) :
      StoreStep cat s (.mkdir n name, [⟨-eInval, .none, .bytes []⟩]) s
  | close {s} (n : Nat) : StoreStep cat s (.close n, [⟨0, .none, .bytes []⟩]) s
  | mknod {s} : StoreStep cat s (.mknod, [⟨-eNotSup, .none, .bytes []⟩]) s
  | rename {s} : StoreStep cat s (.rename, [⟨-eNotSup, .none, .bytes []⟩]) s

end Cheviot.Fatfs
