import Cheviot.Lib.Bytes
import Mathlib.Data.List.GetD
import Mathlib.Data.List.Range

/-!
# The device file system: `devfsMknod`, `devfsLookup`, `devfsReaddir`

All nodes are in one table of 128 packed records, with the name in the first 64
bytes of each; an empty name marks a free slot. The table is a map from names to
inode numbers: `mknod` adds an entry, and nothing is ever removed.

A run is looked at one request at a time. Up to the first request that does not fit the table is
in order (`step_ok`), and with that one the run goes wrong (`step_bad`), so that the two
together say exactly which runs go well.

* `TableOk` — inode numbers in place, names terminated within their field and
  distinct.
* `step_ok` — a request that meets `Fits` keeps the table in order and is
  answered from the map.
* `step_bad` — one that does not breaks the table, leaves it, or finds a name
  nobody has made.
* `tableRun_ok_iff` — the two over a run of requests.

Mirroring notes:
- The table is its bytes; `strcpy` and the stores after it write where the
  compiled code does, and only an access outside the table is a fault.
- Names come with their terminating NUL, so `name_sz` is the length plus one.
- `dir_node` is computed but never read, so `mknod` and `readdir` have no
  directory; `lookup` checks the number of its directory.
- `mode_t` has four bytes, and `direntName` is the offset of `d_name` in the
  `struct dirent` of the target.
-/

namespace Cheviot.Devfs

open Cheviot.Bytes

/-! ## The functions -/

/-- `DEVFS_MAX_INODE` -/
def maxInode : Nat := 128

/-- `DEVFS_NAME_LEN` -/
def nameLen : Nat := 64

/-- `DIRENTS_BUF_SZ` -/
def direntsBufSz : Nat := 4096

/-- `sizeof (struct DevfsNode)` -/
def sizeofNode : Nat := 92

/-- The offset of `devfs_inode_table[k]`, and of its members. -/
def nodeAt (k : Nat) : Nat := sizeofNode * k
def inodeNrAt (k : Nat) : Nat := nodeAt k + 64
def parentAt (k : Nat) : Nat := nodeAt k + 68
def modeAt (k : Nat) : Nat := nodeAt k + 72
def uidAt (k : Nat) : Nat := nodeAt k + 76
def gidAt (k : Nat) : Nat := nodeAt k + 80
def fileSizeAt (k : Nat) : Nat := nodeAt k + 88

/-- A name in a request: a C string of at most 255 bytes. -/
structure Name where
  bytes : List UInt8
  no_nul : 0 ∉ bytes
  length_le : bytes.length ≤ 255
  deriving DecidableEq

/-- How a handler can end without a reply. -/
inductive Fault where
  | outOfBounds
  deriving DecidableEq, Repr

/-- The error numbers of devfs. -/
inductive Errno where
  | einval | enoent | eexist | enospc
  deriving DecidableEq, Repr

/-- What the handlers are asked. The directory of a lookup is one the kernel knows. -/
inductive Request where
  | mknod (name : Name) (mode uid gid : UInt32)
  | lookup (name : Name) (dirInodeNr : Fin maxInode)
  | readdir (offset : Int) (sz : Nat)

/-- An entry of the reply to `readdir`. -/
structure Dirent where
  ino : UInt32
  cookie : Nat
  reclen : Nat
  name : List UInt8
  deriving DecidableEq

/-- What the handlers reply. -/
inductive Reply where
  | error (e : Errno)
  | node (inodeNr size mode uid gid : UInt32)
  | dirents (offset : Int) (entries : List Dirent)
  deriving DecidableEq

/-- `strcmp (s, name) == 0`, with `s` at offset `o`. -/
def strcmpEq (t : Buf) : Nat → List UInt8 → Bool
  | o, [] => t o == 0
  | o, c :: cs => t o == c && strcmpEq t (o + 1) cs

/-- The slots the loops of `mknod` and `lookup` go through. -/
def slots : List Nat := List.range' 1 (maxInode - 1)

/-- `init_devfs`, on the zeroed table. -/
def initDevfs (be : Bool) : Buf :=
  (List.range maxInode).foldl (fun t k =>
    st8 (st32 be (st32 be t (inodeNrAt k) (UInt32.ofNat k)) (parentAt k) 0) (nodeAt k) 0) zeroed

/-- `devfsMknod`. -/
def devfsMknod (be : Bool) (t : Buf) (name : Name) (mode uid gid : UInt32) :
    Except Fault (Buf × Reply) :=
  match slots.find? fun k => strcmpEq t (nodeAt k) name.bytes with
  | some _ => .ok (t, .error .eexist)
  | none =>
    match slots.find? fun k => t (nodeAt k) == 0 with
    | none => .ok (t, .error .enospc)
    | some k =>
      if nodeAt maxInode < nodeAt k + name.bytes.length + 1 then .error .outOfBounds
      else
        let t := stBytes t (nodeAt k) (name.bytes ++ [0])
        let t := st32 be (st32 be (st32 be t (modeAt k) mode) (uidAt k) uid) (gidAt k) gid
        .ok (t, .node (ld32 be t (inodeNrAt k)) 0 (ld32 be t (modeAt k)) (ld32 be t (uidAt k))
          (ld32 be t (gidAt k)))

/-- `devfsLookup`. -/
def devfsLookup (be : Bool) (t : Buf) (name : Name) (_dirInodeNr : Fin maxInode) : Reply :=
  if nameLen < name.bytes.length + 1 then .error .einval
  else
    match slots.find? fun k => strcmpEq t (nodeAt k) name.bytes with
    | some k =>
      .node (ld32 be t (inodeNrAt k)) (ld32 be t (fileSizeAt k))
        (0o777 ||| (0xF000 &&& ld32 be t (modeAt k))) 0 0
    | none => .error .enoent

/-- `strlen` of the string at offset `o`, cut off at `n`. -/
def strnlen (t : Buf) (o : Nat) : Nat → Nat
  | 0 => 0
  | n + 1 => if t o = 0 then 0 else strnlen t (o + 1) n + 1

/-- `(int) offset` -/
def cookieOf (offset : Int) : Int := (offset + 2 ^ 31) % 2 ^ 32 - 2 ^ 31

/-- The loop of `devfsReaddir` from slot `cookie` on, for `n` slots: the next
cookie and the entries that fit. -/
def readdirLoop (be : Bool) (direntName : Nat) (t : Buf) (maxReplySz : Nat) :
    Nat → Nat → Nat → Nat × List Dirent
  | 0, cookie, _ => (cookie, [])
  | n + 1, cookie, bufSz =>
    if t (nodeAt cookie) ≠ 0 then
      let len := strnlen t (nodeAt cookie) (nodeAt maxInode - nodeAt cookie)
      let reclen := (direntName + len + 1 + 7) / 8 * 8
      if bufSz + reclen ≤ maxReplySz then
        let (next, rest) := readdirLoop be direntName t maxReplySz n (cookie + 1) (bufSz + reclen)
        (next, ⟨ld32 be t (inodeNrAt cookie), cookie, reclen,
          getBytes t (nodeAt cookie) len⟩ :: rest)
      else (cookie, [])
    else readdirLoop be direntName t maxReplySz n (cookie + 1) bufSz

/-- `devfsReaddir`. -/
def devfsReaddir (be : Bool) (direntName : Nat) (t : Buf) (offset : Int) (sz : Nat) :
    Except Fault Reply :=
  let cookie := if cookieOf offset = 0 then 1 else cookieOf offset
  if cookie < 0 then .error .outOfBounds
  else
    let (next, entries) := readdirLoop be direntName t (min sz direntsBufSz)
      (maxInode - cookie.toNat) cookie.toNat 0
    .ok (.dirents next entries)

/-- One request. -/
def step (be : Bool) (direntName : Nat) (t : Buf) : Request → Except Fault (Buf × Reply)
  | .mknod name mode uid gid => devfsMknod be t name mode uid gid
  | .lookup name dir => .ok (t, devfsLookup be t name dir)
  | .readdir offset sz => (devfsReaddir be direntName t offset sz).map fun reply => (t, reply)

/-! ## The table -/

/-- Slot `k` carries the name `s`. -/
def Named (t : Buf) (k : Nat) (s : List UInt8) : Prop := strcmpEq t (nodeAt k) s = true

/-- A slot that can hold a node. -/
def Slot (k : Nat) : Prop := 1 ≤ k ∧ k < maxInode

/-- Inode numbers in place, names terminated within their field, used names distinct. -/
structure TableOk (be : Bool) (t : Buf) : Prop where
  inode_nr : ∀ k, k < maxInode → ld32 be t (inodeNrAt k) = UInt32.ofNat k
  terminated : ∀ k, k < maxInode → t (nodeAt k) ≠ 0 → ∃ j, j < nameLen ∧ t (nodeAt k + j) = 0
  distinct : ∀ k l s, Slot k → Slot l → s ≠ [] → 0 ∉ s → Named t k s → Named t l s → k = l

/-- Whether a free slot is left. -/
def HasFree (t : Buf) : Prop := ∃ k, Slot k ∧ t (nodeAt k) = 0

/-- The requests devfs is made for: names that fit their field, unless the table
is full; a name that is not empty, unless no slot has the empty name; and a
cookie that is not negative. -/
def Fits (t : Buf) : Request → Prop
  | .mknod name _ _ _ => name.bytes.length < nameLen ∨ ¬ HasFree t
  | .lookup name _ => name.bytes ≠ [] ∨ ¬ HasFree t
  | .readdir offset _ => 0 ≤ cookieOf offset

/-- The names made so far, with the inode numbers replied. -/
abbrev Made := List (List UInt8 × UInt32)

/-- What a request adds to them. -/
def recordMade (made : Made) : Request → Reply → Made
  | .mknod name _ _ _, .node nr _ _ _ _ => (name.bytes, nr) :: made
  | _, _ => made

/-- A lookup is answered with the number of an earlier `mknod` of that name, and
only then. -/
def Answered (made : Made) : Request → Reply → Prop
  | .lookup name _, reply =>
    ∀ nr, (∃ size mode uid gid, reply = .node nr size mode uid gid) ↔ (name.bytes, nr) ∈ made
  | _, _ => True

/-- One request as it should be: no access outside the table, the table in order
afterwards, and lookups answered from the names made. -/
def StepOk (be : Bool) (direntName : Nat) (t : Buf) (made : Made) (req : Request) : Prop :=
  ∃ t' reply, step be direntName t req = .ok (t', reply) ∧ TableOk be t' ∧ Answered made req reply

/-- A run of requests, each as it should be. -/
def RunOk (be : Bool) (direntName : Nat) : Buf → Made → List Request → Prop
  | _, _, [] => True
  | t, made, req :: reqs => StepOk be direntName t made req ∧
    ∀ t' reply, step be direntName t req = .ok (t', reply) →
      RunOk be direntName t' (recordMade made req reply) reqs

/-- A run of requests, each meeting `Fits` in the state it finds. -/
def RunFits (be : Bool) (direntName : Nat) : Buf → List Request → Prop
  | _, [] => True
  | t, req :: reqs => Fits t req ∧
    ∀ t' reply, step be direntName t req = .ok (t', reply) → RunFits be direntName t' reqs

/-! ## Strings in the table -/

section Strings

variable {t t' : Buf} {k : Nat} {s s' : List UInt8}

theorem strcmpEq_iff (t : Buf) (s : List UInt8) : ∀ o,
    strcmpEq t o s = true ↔ (∀ j (h : j < s.length), t (o + j) = s[j]) ∧ t (o + s.length) = 0 := by
  induction s with
  | nil => simp [strcmpEq]
  | cons c cs ih =>
    intro o
    rw [strcmpEq, Bool.and_eq_true, beq_iff_eq, ih (o + 1)]
    constructor
    · rintro ⟨hc, hcs, hend⟩
      refine ⟨fun j hj => ?_, by rw [List.length_cons, ← hend]; congr 1; omega⟩
      cases j with
      | zero => exact hc
      | succ j =>
        rw [List.getElem_cons_succ, ← hcs j (by simpa using hj)]
        congr 1
        omega
    · rintro ⟨hall, hend⟩
      refine ⟨hall 0 (by simp), fun j hj => ?_, by rw [← hend, List.length_cons]; congr 1; omega⟩
      have := hall (j + 1) (by simpa using hj)
      rw [List.getElem_cons_succ] at this
      rw [← this]
      congr 1
      omega

theorem strcmpEq_congr {o : Nat} (h : AgreeOn o (o + s.length + 1) t t') :
    strcmpEq t' o s = true ↔ strcmpEq t o s = true := by
  have hat : ∀ j, j ≤ s.length → t' (o + j) = t (o + j) := fun j hj => h _ (by omega) (by omega)
  rw [strcmpEq_iff, strcmpEq_iff, hat _ (Nat.le_refl _)]
  constructor
  · exact fun ⟨h1, h2⟩ => ⟨fun j hj => by rw [← hat j (by omega)]; exact h1 j hj, h2⟩
  · exact fun ⟨h1, h2⟩ => ⟨fun j hj => by rw [hat j (by omega)]; exact h1 j hj, h2⟩

theorem Named.byte (h : Named t k s) (j : Nat) (hj : j < s.length) : t (nodeAt k + j) = s[j] :=
  ((strcmpEq_iff t s _).mp h).1 j hj

theorem Named.end (h : Named t k s) : t (nodeAt k + s.length) = 0 := ((strcmpEq_iff t s _).mp h).2

theorem byte_ne_zero (hs : 0 ∉ s) (j : Nat) (hj : j < s.length) : s[j] ≠ 0 :=
  fun h0 => hs (h0 ▸ List.getElem_mem hj)

/-- A string ends at the first NUL. -/
theorem Named.length_le (h : Named t k s) (hs : 0 ∉ s) {j : Nat} (hj : t (nodeAt k + j) = 0) :
    s.length ≤ j := by
  by_contra hlt
  exact byte_ne_zero hs j (by omega) ((h.byte j (by omega)).symm.trans hj)

theorem Named.unique (h : Named t k s) (h' : Named t k s') (hs : 0 ∉ s) (hs' : 0 ∉ s') : s = s' := by
  have hlen : s.length = s'.length :=
    Nat.le_antisymm (h.length_le hs h'.end) (h'.length_le hs' h.end)
  refine List.ext_getElem hlen fun j hj hj' => ?_
  rw [← h.byte j hj, ← h'.byte j hj']

/-- The empty string is the name of the free slots. -/
theorem named_nil_iff : Named t k [] ↔ t (nodeAt k) = 0 := by
  simp [Named, strcmpEq]

theorem Named.used (h : Named t k s) (hne : s ≠ []) (hs : 0 ∉ s) : t (nodeAt k) ≠ 0 := by
  have hpos : 0 < s.length := List.length_pos_iff.mpr hne
  have h0 := h.byte 0 hpos
  rw [Nat.add_zero] at h0
  rw [h0]
  exact byte_ne_zero hs 0 hpos

theorem Named.length_lt {be : Bool} (hok : TableOk be t) (hk : k < maxInode) (h : Named t k s)
    (hne : s ≠ []) (hs : 0 ∉ s) : s.length < nameLen := by
  obtain ⟨j, hj, h0⟩ := hok.terminated k hk (h.used hne hs)
  exact Nat.lt_of_le_of_lt (h.length_le hs h0) hj

theorem mem_slots : k ∈ slots ↔ Slot k := by
  unfold slots Slot maxInode
  rw [List.mem_range'_1]

/-- The search both handlers begin with. -/
theorem find_named {p : Nat → Bool} :
    (∃ k, slots.find? p = some k ∧ Slot k ∧ p k = true) ∨
      slots.find? p = none ∧ ∀ k, Slot k → p k = false := by
  cases hfind : slots.find? p with
  | none =>
    refine .inr ⟨rfl, fun k hk => ?_⟩
    simpa using List.find?_eq_none.mp hfind k (mem_slots.mpr hk)
  | some k =>
    exact .inl ⟨k, rfl, mem_slots.mp (List.mem_of_find?_eq_some hfind), List.find?_some hfind⟩

end Strings

/-! ## The effect of a `mknod` -/

/-- The table after a node has been entered in slot `k`. -/
def entered (be : Bool) (t : Buf) (k : Nat) (name : List UInt8) (mode uid gid : UInt32) : Buf :=
  st32 be (st32 be (st32 be (stBytes t (nodeAt k) (name ++ [0])) (modeAt k) mode) (uidAt k) uid)
    (gidAt k) gid

section Enter

variable {be : Bool} {t : Buf} {k : Nat} {name : List UInt8} {mode uid gid : UInt32}

/-- Below the members after the name, the store of the name is what shows. -/
theorem entered_low {a : Nat} (h : a < nodeAt k + 72) :
    entered be t k name mode uid gid a = stBytes t (nodeAt k) (name ++ [0]) a := by
  unfold entered modeAt uidAt gidAt
  rw [st32_apply_ne (by omega), st32_apply_ne (by omega), st32_apply_ne (by omega)]

/-- Nothing outside the record is written when the name fits its field. -/
theorem entered_frame (hlen : name.length < nameLen) {a : Nat}
    (h : a < nodeAt k ∨ nodeAt k + nameLen ≤ a ∧ a < modeAt k ∨ nodeAt (k + 1) ≤ a) :
    entered be t k name mode uid gid a = t a := by
  unfold entered modeAt uidAt gidAt nodeAt nameLen sizeofNode at *
  rw [st32_apply_ne (by omega), st32_apply_ne (by omega), st32_apply_ne (by omega),
    stBytes_apply_ne (by rw [List.length_append, List.length_singleton]; omega)]

/-- The bytes of the name, as far as they lie before the later stores. -/
theorem entered_byte (be : Bool) (t : Buf) (k : Nat) (mode uid gid : UInt32) {j : Nat} (hj : j < name.length) (hlt : j < 72) :
    entered be t k name mode uid gid (nodeAt k + j) = name[j] := by
  rw [entered_low (by omega), stBytes_apply (by omega) (by simp; omega)]
  rw [show nodeAt k + j - nodeAt k = j from by omega, List.getD_append _ _ _ _ hj,
    List.getD_eq_getElem _ _ hj]

theorem entered_named (hlen : name.length < nameLen) :
    Named (entered be t k name mode uid gid) k name := by
  unfold nameLen at hlen
  refine (strcmpEq_iff _ _ _).mpr ⟨fun j hj =>
    entered_byte be t k mode uid gid hj (by omega), ?_⟩
  rw [entered_low (by omega), stBytes_apply (by omega) (by simp)]
  rw [show nodeAt k + name.length - nodeAt k = name.length from by omega,
    List.getD_append_right _ _ _ _ (Nat.le_refl _), Nat.sub_self, List.getD_cons_zero]

/-- The names in the other slots are the same. -/
theorem entered_named_ne (hok : TableOk be t) (hlen : name.length < nameLen) {m : Nat}
    (hm : m < maxInode) (hmk : m ≠ k) {s : List UInt8} (hne : s ≠ []) (hs : 0 ∉ s) :
    Named (entered be t k name mode uid gid) m s ↔ Named t m s := by
  have hagree : ∀ j, j < nameLen →
      entered be t k name mode uid gid (nodeAt m + j) = t (nodeAt m + j) := by
    intro j hj
    refine entered_frame hlen ?_
    unfold nameLen at hj
    unfold nodeAt sizeofNode
    omega
  constructor
  · intro h
    have hused := h.used hne hs
    have h0 := hagree 0 (by decide)
    rw [Nat.add_zero] at h0
    rw [h0] at hused
    obtain ⟨j, hj, hnul⟩ := hok.terminated m hm hused
    have hle := h.length_le hs ((hagree j hj).trans hnul)
    refine (strcmpEq_congr fun a h1 h2 => ?_).mp h
    have ha := hagree (a - nodeAt m) (by omega)
    rwa [show nodeAt m + (a - nodeAt m) = a from by omega] at ha
  · intro h
    have hlt := h.length_lt hok hm hne hs
    refine (strcmpEq_congr fun a h1 h2 => ?_).mpr h
    have ha := hagree (a - nodeAt m) (by omega)
    rwa [show nodeAt m + (a - nodeAt m) = a from by omega] at ha

/-- Entering a new name in a free slot keeps the table in order. -/
theorem entered_ok (mode uid gid : UInt32) (hok : TableOk be t) (hk : Slot k) (hfree : t (nodeAt k) = 0)
    (hlen : name.length < nameLen) (hnul : 0 ∉ name)
    (hnew : ∀ m, Slot m → ¬ Named t m name) :
    TableOk be (entered be t k name mode uid gid) := by
  have hnamed : Named (entered be t k name mode uid gid) k name := entered_named hlen
  refine ⟨fun m hm => ?_, fun m hm hused => ?_, fun m l s hm hl hs0 hs h h' => ?_⟩
  · -- the inode number of a node lies in front of what is entered, or in another node
    rw [← hok.inode_nr m hm]
    refine ld32_congr fun a h1 h2 => entered_frame hlen ?_
    unfold inodeNrAt at h1 h2
    unfold modeAt nodeAt sizeofNode nameLen at *
    rcases Nat.lt_trichotomy m k with h | rfl | h
    · omega
    · omega
    · omega
  · -- the new name has its end; the bytes of the others have not changed
    by_cases hmk : m = k
    · rw [hmk]
      exact ⟨name.length, hlen, hnamed.end⟩
    · have hagree : ∀ j, j < nameLen →
          entered be t k name mode uid gid (nodeAt m + j) = t (nodeAt m + j) := by
        intro j hj
        refine entered_frame hlen ?_
        unfold nameLen at hj
        unfold nodeAt sizeofNode
        omega
      have h0 := hagree 0 (by decide)
      rw [Nat.add_zero] at h0
      rw [h0] at hused
      obtain ⟨j, hj, hz⟩ := hok.terminated m hm hused
      exact ⟨j, hj, (hagree j hj).trans hz⟩
  · -- the new name differs from all others, and those from each other
    by_cases hmk : m = k
    · by_cases hlk : l = k
      · rw [hmk, hlk]
      · subst hmk
        rw [hnamed.unique h hnul hs] at hnew
        exact absurd ((entered_named_ne hok hlen hl.2 hlk hs0 hs).mp h') (hnew l hl)
    · by_cases hlk : l = k
      · subst hlk
        rw [hnamed.unique h' hnul hs] at hnew
        exact absurd ((entered_named_ne hok hlen hm.2 hmk hs0 hs).mp h) (hnew m hm)
      · exact hok.distinct m l s hm hl hs0 hs ((entered_named_ne hok hlen hm.2 hmk hs0 hs).mp h)
          ((entered_named_ne hok hlen hl.2 hlk hs0 hs).mp h')

end Enter

/-! ## One request -/

/-- The table in order, and the names in it those made so far. -/
structure Inv (be : Bool) (t : Buf) (made : Made) : Prop where
  table : TableOk be t
  made_iff : ∀ s nr, (s, nr) ∈ made ↔
    s ≠ [] ∧ 0 ∉ s ∧ ∃ k, Slot k ∧ nr = UInt32.ofNat k ∧ Named t k s

section Step

variable {be : Bool} (direntName : Nat) {t : Buf} {made : Made}

theorem mknod_ok (h : Inv be t made) (name : Name) (mode uid gid : UInt32)
    (hfits : name.bytes.length < nameLen ∨ ¬ HasFree t) :
    ∃ t' reply, devfsMknod be t name mode uid gid = .ok (t', reply) ∧
      Inv be t' (recordMade made (.mknod name mode uid gid) reply) := by
  unfold devfsMknod
  rcases find_named (p := fun k => strcmpEq t (nodeAt k) name.bytes) with
    ⟨k, hfind, -, -⟩ | ⟨hfind, hnew⟩
  · -- a node of the name is there: nothing is made
    rw [hfind]
    exact ⟨t, _, rfl, h⟩
  rw [hfind]
  simp only
  rcases find_named (p := fun k => t (nodeAt k) == 0) with ⟨k, hfree, hk, h0⟩ | ⟨hfull, -⟩
  · rw [hfree]
    rw [beq_iff_eq] at h0
    have hlen : name.bytes.length < nameLen := hfits.resolve_right fun hno => hno ⟨k, hk, h0⟩
    -- the empty name is that of every free slot, and this one is free
    have hne : name.bytes ≠ [] := by
      intro hnil
      have := hnew k hk
      rw [hnil] at this
      exact absurd (named_nil_iff.mpr h0) (by simpa [Named] using this)
    have hnew' : ∀ m, Slot m → ¬ Named t m name.bytes := fun m hm hn => by
      have := hnew m hm
      unfold Named at hn
      rw [hn] at this
      cases this
    have hbound : ¬ nodeAt maxInode < nodeAt k + name.bytes.length + 1 := by
      have := hk.2
      unfold nodeAt sizeofNode maxInode at *
      unfold nameLen at hlen
      omega
    simp only [if_neg hbound]
    have hok := entered_ok mode uid gid h.table hk h0 hlen name.no_nul hnew'
    refine ⟨entered be t k name.bytes mode uid gid, _, rfl, hok, fun s nr => ?_⟩
    have hnamed : Named (entered be t k name.bytes mode uid gid) k name.bytes := entered_named hlen
    show (s, nr) ∈ (name.bytes, ld32 be (entered be t k name.bytes mode uid gid) (inodeNrAt k)) ::
      made ↔ _
    -- what is made is what was made and the new node: no other slot has its number
    rw [List.mem_cons, hok.inode_nr k hk.2, h.made_iff, Prod.mk.injEq]
    constructor
    · rintro (⟨rfl, rfl⟩ | ⟨hs0, hs, m, hm, rfl, hn⟩)
      · exact ⟨hne, name.no_nul, k, hk, rfl, hnamed⟩
      · have hmk : m ≠ k := by
          rintro rfl
          exact hn.used hs0 hs h0
        exact ⟨hs0, hs, m, hm, rfl, (entered_named_ne h.table hlen hm.2 hmk hs0 hs).mpr hn⟩
    · rintro ⟨hs0, hs, m, hm, rfl, hn⟩
      by_cases hmk : m = k
      · subst hmk
        exact .inl ⟨hn.unique hnamed hs name.no_nul, rfl⟩
      · exact .inr ⟨hs0, hs, m, hm, rfl, (entered_named_ne h.table hlen hm.2 hmk hs0 hs).mp hn⟩
  · rw [hfull]
    exact ⟨t, _, rfl, h⟩

theorem lookup_ok (h : Inv be t made) (name : Name) (dir : Fin maxInode)
    (hfits : name.bytes ≠ [] ∨ ¬ HasFree t) :
    Answered made (.lookup name dir) (devfsLookup be t name dir) := by
  intro nr
  have hnul := name.no_nul
  -- a name nobody has made
  have hnone : (∀ k, Slot k → ¬ Named t k name.bytes) → (name.bytes, nr) ∉ made := by
    rintro hno hmem
    obtain ⟨-, -, k, hk, -, hn⟩ := (h.made_iff _ _).mp hmem
    exact hno k hk hn
  unfold devfsLookup
  by_cases hlong : nameLen < name.bytes.length + 1
  · rw [if_pos hlong]
    -- a name that does not fit in a node has not been made
    refine iff_of_false (by simp) (hnone fun k hk hn => ?_)
    have hne : name.bytes ≠ [] := by
      intro hnil
      rw [hnil] at hlong
      simp [nameLen] at hlong
    have := hn.length_lt h.table hk.2 hne hnul
    omega
  · rw [if_neg hlong]
    rcases find_named (p := fun k => strcmpEq t (nodeAt k) name.bytes) with
      ⟨k, hfind, hk, hn⟩ | ⟨hfind, hno⟩
    · -- the first slot with the name has been made, unless the name is empty
      have hne : name.bytes ≠ [] := by
        intro hnil
        rcases hfits with hfits | hfull
        · exact hfits hnil
        · rw [hnil] at hn
          exact hfull ⟨k, hk, named_nil_iff.mp hn⟩
      rw [hfind]
      simp only
      rw [h.table.inode_nr k hk.2, h.made_iff]
      constructor
      · rintro ⟨size, mode, uid, gid, heq⟩
        cases heq
        exact ⟨hne, hnul, k, hk, rfl, hn⟩
      · rintro ⟨-, -, m, hm, rfl, hn'⟩
        rw [h.table.distinct m k name.bytes hm hk hne hnul hn' hn]
        exact ⟨_, _, _, _, rfl⟩
    · rw [hfind]
      refine iff_of_false (by simp) (hnone fun k hk hn => ?_)
      have := hno k hk
      unfold Named at hn
      rw [hn] at this
      cases this

theorem readdir_ok {offset : Int} (hfits : 0 ≤ cookieOf offset) (sz : Nat) :
    ∃ reply, devfsReaddir be direntName t offset sz = .ok reply := by
  unfold devfsReaddir
  simp only
  rw [if_neg (by split <;> omega)]
  exact ⟨_, rfl⟩

/-- A request that meets `Fits` is as it should be. -/
theorem step_ok (h : Inv be t made) {req : Request} (hfits : Fits t req) :
    StepOk be direntName t made req ∧ ∀ t' reply, step be direntName t req = .ok (t', reply) →
      Inv be t' (recordMade made req reply) := by
  cases req with
  | mknod name mode uid gid =>
    obtain ⟨t', reply, hstep, hinv⟩ := mknod_ok h name mode uid gid hfits
    refine ⟨⟨t', reply, hstep, hinv.table, trivial⟩, fun t'' reply' heq => ?_⟩
    rw [step, hstep] at heq
    cases heq
    exact hinv
  | lookup name dir =>
    refine ⟨⟨t, _, rfl, h.table, lookup_ok h name dir hfits⟩, fun t' reply heq => ?_⟩
    cases heq
    exact h
  | readdir offset sz =>
    obtain ⟨reply, hreply⟩ := readdir_ok (t := t) direntName hfits sz
    have hstep : step be direntName t (.readdir offset sz) = .ok (t, reply) := by
      rw [step, hreply]
      rfl
    refine ⟨⟨t, reply, hstep, h.table, trivial⟩, fun t' reply' heq => ?_⟩
    rw [hstep] at heq
    cases heq
    exact h

/-- A request that does not meet `Fits` is not. -/
theorem step_bad (h : Inv be t made) {req : Request} (hfits : ¬ Fits t req) :
    ¬ StepOk be direntName t made req := by
  rintro ⟨t', reply, hstep, hok, hanswered⟩
  cases req with
  | mknod name mode uid gid =>
    simp only [Fits, not_or, not_not, Nat.not_lt] at hfits
    obtain ⟨hlong, k₀, hk₀, hfree₀⟩ := hfits
    have hne : name.bytes ≠ [] := by
      intro hnil
      rw [hnil] at hlong
      simp [nameLen] at hlong
    have hnew : slots.find? (fun k => strcmpEq t (nodeAt k) name.bytes) = none := by
      rcases find_named (p := fun k => strcmpEq t (nodeAt k) name.bytes) with
        ⟨k, -, hk, hn⟩ | ⟨hfind, -⟩
      · have hlt := Named.length_lt (k := k) h.table hk.2 hn hne name.no_nul
        omega
      · exact hfind
    simp only [step, devfsMknod, hnew] at hstep
    rcases find_named (p := fun k => t (nodeAt k) == 0) with ⟨k, hfree, hk, -⟩ | ⟨-, hfull⟩
    · rw [hfree] at hstep
      simp only at hstep
      split at hstep
      · cases hstep
      · -- the first 64 bytes of the record are those of the name, without an end
        simp only [Except.ok.injEq, Prod.mk.injEq] at hstep
        have hbyte : ∀ j, j < nameLen → t' (nodeAt k + j) ≠ 0 := by
          intro j hj
          rw [← hstep.1]
          unfold nameLen at hj hlong
          have hb := entered_byte be t k mode uid gid (show j < name.bytes.length by omega)
            (by omega)
          exact fun h0 => byte_ne_zero name.no_nul j (by omega) (hb.symm.trans h0)
        obtain ⟨j, hj, h0⟩ := hok.terminated k hk.2 (hbyte 0 (by decide))
        exact hbyte j hj h0
    · have := hfull k₀ hk₀
      simp [hfree₀] at this
  | lookup name dir =>
    simp only [Fits, not_or, not_not] at hfits
    obtain ⟨hnil, k₀, hk₀, hfree₀⟩ := hfits
    cases hstep
    -- the empty name finds a free slot
    rcases find_named (p := fun k => strcmpEq t (nodeAt k) name.bytes) with
      ⟨k, hfind, -, -⟩ | ⟨-, hno⟩
    · have hreply : ∃ size mode uid gid, devfsLookup be t name dir =
          .node (ld32 be t (inodeNrAt k)) size mode uid gid := by
        unfold devfsLookup
        rw [if_neg (by rw [hnil]; decide), hfind]
        exact ⟨_, _, _, _, rfl⟩
      have hmem := (hanswered _).mp hreply
      exact ((h.made_iff _ _).mp hmem).1 hnil
    · have := hno k₀ hk₀
      rw [hnil] at this
      simp [strcmpEq, hfree₀] at this
  | readdir offset sz =>
    simp only [Fits, Int.not_le] at hfits
    have hfault : devfsReaddir be direntName t offset sz = .error .outOfBounds := by
      unfold devfsReaddir
      rw [if_neg (show cookieOf offset ≠ 0 by omega)]
      exact if_pos hfits
    rw [step, hfault] at hstep
    cases hstep

end Step

/-! ## Runs -/

/-- `init_devfs` numbers the slots and leaves every name empty. -/
theorem initDevfs_bytes (be : Bool) (n : Nat) : ∀ k, (k < n →
    ld32 be ((List.range n).foldl (fun t k =>
      st8 (st32 be (st32 be t (inodeNrAt k) (UInt32.ofNat k)) (parentAt k) 0) (nodeAt k) 0) zeroed)
      (inodeNrAt k) = UInt32.ofNat k) ∧
    ((List.range n).foldl (fun t k =>
      st8 (st32 be (st32 be t (inodeNrAt k) (UInt32.ofNat k)) (parentAt k) 0) (nodeAt k) 0) zeroed)
      (nodeAt k) = 0 := by
  induction n with
  | zero => exact fun k => ⟨fun h => absurd h (Nat.not_lt_zero k), rfl⟩
  | succ n ih =>
    intro k
    obtain ⟨ihn, ih0⟩ := ih k
    rw [List.range_succ, List.foldl_append]
    simp only [List.foldl_cons, List.foldl_nil]
    generalize (List.range n).foldl (fun t k =>
      st8 (st32 be (st32 be t (inodeNrAt k) (UInt32.ofNat k)) (parentAt k) 0) (nodeAt k) 0)
      zeroed = t at ihn ih0
    constructor
    · intro hk
      rw [ld32_congr (b := st32 be t (inodeNrAt n) (UInt32.ofNat n))]
      · by_cases hkn : k = n
        · rw [hkn, ld32_st32]
        · rw [ld32_st32_ne, ihn (by omega)]
          unfold inodeNrAt nodeAt sizeofNode
          omega
      · intro a h1 h2
        unfold inodeNrAt at h1 h2
        unfold parentAt nodeAt sizeofNode at *
        rw [st8_apply_ne (by omega), st32_apply_ne (by omega)]
    · by_cases hkn : k = n
      · rw [hkn, st8_same]
      · unfold inodeNrAt parentAt nodeAt sizeofNode at *
        rw [st8_apply_ne (by omega), st32_apply_ne (by omega), st32_apply_ne (by omega), ih0]

theorem initDevfs_inv (be : Bool) : Inv be (initDevfs be) [] := by
  have hfree : ∀ k, initDevfs be (nodeAt k) = 0 := fun k => (initDevfs_bytes be maxInode k).2
  refine ⟨⟨fun k hk => (initDevfs_bytes be maxInode k).1 hk, fun k _ h => absurd (hfree k) h,
    fun m l s _ _ hs0 hs h _ => absurd (hfree m) (h.used hs0 hs)⟩, fun s nr => ?_⟩
  refine iff_of_false (List.not_mem_nil) ?_
  rintro ⟨hs0, hs, k, -, -, h⟩
  exact h.used hs0 hs (hfree k)

theorem run_iff (be : Bool) (direntName : Nat) (reqs : List Request) :
    ∀ t made, Inv be t made →
      (RunOk be direntName t made reqs ↔ RunFits be direntName t reqs) := by
  induction reqs with
  | nil => exact fun _ _ _ => Iff.rfl
  | cons req reqs ih =>
    intro t made h
    unfold RunOk RunFits
    by_cases hfits : Fits t req
    · obtain ⟨hok, hnext⟩ := step_ok direntName h hfits
      constructor
      · exact fun ⟨_, hrest⟩ => ⟨hfits, fun t' reply hstep =>
          (ih t' _ (hnext t' reply hstep)).mp (hrest t' reply hstep)⟩
      · exact fun ⟨_, hrest⟩ => ⟨hok, fun t' reply hstep =>
          (ih t' _ (hnext t' reply hstep)).mpr (hrest t' reply hstep)⟩
    · exact iff_of_false (fun ⟨hok, _⟩ => step_bad direntName h hfits hok) fun ⟨hf, _⟩ => hfits hf

/-- From the start of devfs on, a run of requests keeps the table in order and is
answered from the names made if and only if each of its requests meets `Fits`. -/
theorem tableRun_ok_iff (be : Bool) (direntName : Nat) (reqs : List Request) :
    RunOk be direntName (initDevfs be) [] reqs ↔ RunFits be direntName (initDevfs be) reqs :=
  run_iff be direntName reqs _ _ (initDevfs_inv be)

/-- A name of 64 bytes fills its field, and its NUL lands in the inode number behind it. -/
theorem mknod_overflow : ¬ RunOk false 16 (initDevfs false) []
    [.mknod ⟨List.replicate 64 0x41, by decide, by decide⟩ 0o600 0 0] := by
  have hinit := initDevfs_inv false
  have hfree : HasFree (initDevfs false) :=
    ⟨1, ⟨by decide, by decide⟩, (initDevfs_bytes false maxInode 1).2⟩
  rintro ⟨hok, -⟩
  refine step_bad 16 hinit ?_ hok
  rintro (hlen | hfull)
  · exact absurd hlen (by decide)
  · exact hfull hfree

end Cheviot.Devfs
