import Cheviot.Lib.Bytes
import Mathlib.Data.List.GetD
import Mathlib.Logic.Function.Basic
import Mathlib.Tactic.Tauto

/-!
# The block cache of fatfs: `sector.c`

A table of sector buffers on four lists: free, least recently used, dirty, and
one hash bucket of 64. `BufGetBlock` finds the buffer of a sector or recycles one,
from the free list first and then from the tail of the LRU list; `BufPutBlock`
marks a buffer dirty and, with no write-back delay, writes it at once.

A request is cut into rounds of one sector each. For a round the invariant is checked field by
field, as a change of one buffer leaves most of it alone (`Stands.keep`); the requests go by
induction on the rounds.

* `Stands` — the lists agree with the flags of the buffers, and buffers and device
  together hold the bytes of a flat array; `Rep`, the same without a write-back delay.
* `bufGetBlock_spec`, `bufPutBlock_spec` — finding a buffer changes no byte of
  the array, putting one back changes those of its sector.
* `bufReadBlocks_spec`, `bufWriteBlocks_bytes` — a range of bytes, over as many
  sectors as it takes; `bufReadBlocks_ring` and `bufWriteBlocks_ring` go on with
  sector 0 after the last one a 32-bit number counts.
* `cacheRun_ok_iff` — a run of requests is a run on the flat array if and only if
  none of them writes zeros over the end of a sector.

Mirroring notes:
- A list is its buffers from head to tail; `LIST_REM_ENTRY` is `erase`.
- `malloc` and the device succeed. `dev` holds the 512 bytes of each sector.
- The pointer `addr` of `BufWriteBlocks` is the bytes behind it, a null pointer,
  or what becomes of a null pointer when a length is added to it: not null any
  more, and not the address of anything.
- A sector number and the partition start together stay below 2^31, the range
  of the `int` they are added in.
-/

namespace Cheviot.Fatfs

open Cheviot.Bytes

/-! ## The cache and its functions -/

/-- How the handler can end without a result: `exit (-1)`, an access to memory
that is not its own, or a loop that does not end. -/
inductive Fault where
  | exit
  | wildPointer
  | hang
  deriving DecidableEq, Repr

/-- `BUF_HASH_CNT` -/
def bufHashCnt : Nat := 64

/-- `struct Blk` -/
structure Blk where
  sector : Int
  dirty : Bool
  mem : Buf
  inUse : Bool

/-- `struct Cache`, and the device it caches. -/
structure Cache where
  bufferCnt : Nat
  blockSize : Nat
  writethruCritical : Bool
  writebackDelay : Nat
  blkTable : Nat → Blk
  lruList : List Nat
  dirtyList : List Nat
  freeList : List Nat
  hashList : Nat → List Nat
  dev : Nat → Buf

/-- The cache with buffer `i` replaced. -/
def Cache.setBlk (c : Cache) (i : Nat) (b : Blk) : Cache :=
  { c with blkTable := Function.update c.blkTable i b }

/-- `hash_idx` of a sector. -/
def hashIdx (sector : Int) : Nat := (sector % bufHashCnt).toNat

/-- `CreateCache`. -/
def createCache (dev : Nat → Buf) (bufferCnt blockSize : Nat) (writethruCritical : Bool)
    (writebackDelay : Nat) : Option Cache :=
  if bufferCnt = 0 ∨ blockSize < 512 then none
  else some {
    bufferCnt := bufferCnt
    blockSize := blockSize
    writethruCritical := writethruCritical
    writebackDelay := writebackDelay
    blkTable := fun _ => ⟨-1, false, zeroed, false⟩
    lruList := []
    dirtyList := []
    freeList := List.range bufferCnt
    hashList := fun _ => []
    dev := dev }

/-- `BufReadSector`. -/
def bufReadSector (c : Cache) (i sector : Nat) : Cache :=
  c.setBlk i { c.blkTable i with mem := c.dev sector }

/-- `BufWriteSector`. -/
def bufWriteSector (c : Cache) (i : Nat) : Cache :=
  { c with dev := Function.update c.dev (c.blkTable i).sector.toNat (c.blkTable i).mem }

/-- A dirty buffer is taken off the dirty list and written. -/
def cleanBlock (c : Cache) (i : Nat) : Cache :=
  bufWriteSector { c.setBlk i { c.blkTable i with dirty := false } with
    dirtyList := c.dirtyList.erase i } i

/-- The loop of `SyncCache`, for as many buffers as there are on the dirty list. -/
def syncLoop : Nat → Cache → Cache
  | 0, c => c
  | n + 1, c =>
    match c.dirtyList with
    | [] => c
    | i :: _ => syncLoop n (cleanBlock c i)

/-- `SyncCache`. -/
def syncCache (c : Cache) : Cache := syncLoop c.dirtyList.length c

/-- A buffer is taken from the LRU list and its hash list to the free list. -/
def unuseBlock (c : Cache) (i : Nat) : Cache :=
  let h := hashIdx (c.blkTable i).sector
  { c.setBlk i { c.blkTable i with inUse := false } with
    lruList := c.lruList.erase i
    hashList := Function.update c.hashList h ((c.hashList h).erase i)
    freeList := i :: c.freeList }

/-- The part of `BufGetBlock` that frees the buffer `i` from the LRU list. -/
def evictBlock (c : Cache) (i : Nat) : Cache :=
  unuseBlock (if (c.blkTable i).dirty = true then cleanBlock c i else c) i

/-- The part of `BufGetBlock` that fills the buffer `i` at the head of the free list. -/
def loadBlock (c : Cache) (i block : Nat) : Cache :=
  let h := hashIdx block
  let c := { c.setBlk i { c.blkTable i with inUse := true, sector := block, dirty := false } with
    freeList := c.freeList.tail
    lruList := i :: c.lruList
    hashList := Function.update c.hashList h (i :: c.hashList h) }
  bufReadSector c i block

/-- `BufGetBlock`. -/
def bufGetBlock (c : Cache) (block : Nat) : Except Fault (Cache × Nat) :=
  match (c.hashList (hashIdx block)).find? fun i => (c.blkTable i).sector == block with
  | some i => .ok ({ c with lruList := i :: c.lruList.erase i }, i)
  | none =>
    match c.freeList with
    | i :: _ => .ok (loadBlock c i block, i)
    | [] =>
      match c.lruList.getLast? with
      | none => .error .exit
      | some i => .ok (loadBlock (evictBlock c i) i block, i)

/-- `BUF_IMMED`, `BUF_ONESHOT` -/
structure Mode where
  immed : Bool
  oneshot : Bool

/-- `BufPutBlock`; it fails only where the device does. -/
def bufPutBlock (c : Cache) (i : Nat) (mode : Mode) : Cache :=
  let c := if mode.oneshot then { c with lruList := c.lruList.erase i ++ [i] } else c
  if mode.immed then
    let c := if (c.blkTable i).dirty = true then
        { c.setBlk i { c.blkTable i with dirty := false } with
          dirtyList := c.dirtyList.erase i }
      else c
    if c.writethruCritical then bufWriteSector c i else c
  else
    let c := if (c.blkTable i).dirty ≠ true then
        { c.setBlk i { c.blkTable i with dirty := true } with
          dirtyList := c.dirtyList ++ [i] }
      else c
    if c.writebackDelay = 0 then bufWriteSector c i else c

/-- `BufReadBlocks`: the bytes copied to `addr`. -/
def bufReadBlocks : Nat → Cache → Nat → Nat → Nat → Except Fault (Cache × List UInt8)
  | 0, _, _, _, _ => .error .hang
  | fuel + 1, c, block, offset, nbytes =>
    if nbytes = 0 then .ok (c, [])
    else do
      let n := min nbytes (c.blockSize - offset)
      let (c, i) ← bufGetBlock c block
      let data := getBytes (c.blkTable i).mem offset n
      let (c, rest) ← bufReadBlocks fuel c ((block + 1) % 2 ^ 32) 0 (nbytes - n)
      return (c, data ++ rest)

/-- What the pointer `addr` of `BufWriteBlocks` can be. -/
inductive Addr where
  | bytes (l : List UInt8)
  | null
  | wild

/-- `addr += n` -/
def Addr.add : Addr → Nat → Addr
  | .bytes l, n => .bytes (l.drop n)
  | .null, n => if n = 0 then .null else .wild
  | .wild, _ => .wild

/-- The `memcpy` or `memset` of `BufWriteBlocks`. -/
def fillBuffer (mem : Buf) (offset : Nat) (addr : Addr) (n : Nat) : Except Fault Buf :=
  match addr with
  | .bytes l => .ok (stBytes mem offset (l.take n))
  | .null => .ok (stBytes mem offset (List.replicate n 0))
  | .wild => .error .wildPointer

/-- `BufWriteBlocks`. -/
def bufWriteBlocks (mode : Mode) :
    Nat → Cache → Addr → Nat → Nat → Nat → Except Fault Cache
  | 0, _, _, _, _, _ => .error .hang
  | fuel + 1, c, addr, block, offset, nbytes =>
    if nbytes = 0 then .ok c
    else do
      let n := min nbytes (c.blockSize - offset)
      let (c, i) ← bufGetBlock c block
      let mem ← fillBuffer (c.blkTable i).mem offset addr n
      let c := bufPutBlock (c.setBlk i { c.blkTable i with mem := mem }) i mode
      bufWriteBlocks mode fuel c (addr.add n) ((block + 1) % 2 ^ 32) 0 (nbytes - n)

/-- `readSector`. -/
def readSector (partitionStart : Nat) (c : Cache) (sector sectorOffset nbytes : Nat) :
    Except Fault (Cache × List UInt8) :=
  bufReadBlocks (nbytes + 1) c (sector + partitionStart) sectorOffset nbytes

/-- `writeSector`. -/
def writeSector (partitionStart : Nat) (c : Cache) (mem : Addr)
    (sector sectorOffset nbytes : Nat) : Except Fault Cache :=
  bufWriteBlocks ⟨false, false⟩ (nbytes + 1) c mem (sector + partitionStart) sectorOffset nbytes

/-! ## What the cache stands for -/

/-- The lists in agreement with the buffers, and the buffers and the device with
the flat array `flat`: what is not on the device yet is in a dirty buffer. -/
structure Stands (c : Cache) (flat : Nat → UInt8) : Prop where
  block_size : c.blockSize = 512
  some_buffer : 0 < c.bufferCnt
  lru_nodup : c.lruList.Nodup
  lru_mem : ∀ i, i ∈ c.lruList ↔ i < c.bufferCnt ∧ (c.blkTable i).inUse = true
  free_nodup : c.freeList.Nodup
  free_mem : ∀ i, i ∈ c.freeList ↔ i < c.bufferCnt ∧ (c.blkTable i).inUse = false
  hash_nodup : ∀ h, (c.hashList h).Nodup
  hash_mem : ∀ h i, i ∈ c.hashList h ↔
    i < c.bufferCnt ∧ (c.blkTable i).inUse = true ∧ hashIdx (c.blkTable i).sector = h
  dirty_nodup : c.dirtyList.Nodup
  dirty_mem : ∀ i, i ∈ c.dirtyList ↔ i < c.bufferCnt ∧ (c.blkTable i).dirty = true
  dirty_used : ∀ i, i < c.bufferCnt → (c.blkTable i).dirty = true → (c.blkTable i).inUse = true
  sector_nonneg : ∀ i, i < c.bufferCnt → (c.blkTable i).inUse = true → 0 ≤ (c.blkTable i).sector
  sector_inj : ∀ i j, i < c.bufferCnt → j < c.bufferCnt → (c.blkTable i).inUse = true →
    (c.blkTable j).inUse = true → (c.blkTable i).sector = (c.blkTable j).sector → i = j
  cached : ∀ i, i < c.bufferCnt → (c.blkTable i).inUse = true → ∀ a,
    a / 512 = (c.blkTable i).sector.toNat → (c.blkTable i).mem (a % 512) = flat a
  device : ∀ a, (∀ i, i < c.bufferCnt → (c.blkTable i).dirty = true →
    (c.blkTable i).sector ≠ (a / 512 : Nat)) → c.dev (a / 512) (a % 512) = flat a

/-- A cache without a write-back delay that stands for an array. -/
structure Rep (c : Cache) (flat : Nat → UInt8) : Prop extends Stands c flat where
  writeback : c.writebackDelay = 0

theorem Stands.rep {c : Cache} {flat : Nat → UInt8} (h : Stands c flat)
    (hdelay : c.writebackDelay = 0) : Rep c flat :=
  { h with writeback := hdelay }

/-- A cache stands for one array. -/
theorem Stands.unique {c : Cache} {flat flat' : Nat → UInt8} (h : Stands c flat)
    (h' : Stands c flat') : flat = flat' := by
  funext a
  by_cases hdirty : ∃ i, i < c.bufferCnt ∧ (c.blkTable i).dirty = true ∧
      (c.blkTable i).sector = (a / 512 : Nat)
  · obtain ⟨i, hi, hd, hsec⟩ := hdirty
    have hused := h.dirty_used i hi hd
    rw [← h.cached i hi hused a (by omega), ← h'.cached i hi hused a (by omega)]
  · have hnone : ∀ i, i < c.bufferCnt → (c.blkTable i).dirty = true →
        (c.blkTable i).sector ≠ (a / 512 : Nat) :=
      fun i hi hd hsec => hdirty ⟨i, hi, hd, hsec⟩
    rw [← h.device a hnone, ← h'.device a hnone]

/-- The cache has the configuration it was created with. -/
structure SameConfig (c c' : Cache) : Prop where
  bufferCnt : c'.bufferCnt = c.bufferCnt
  writethru : c'.writethruCritical = c.writethruCritical
  delay : c'.writebackDelay = c.writebackDelay

theorem SameConfig.refl (c : Cache) : SameConfig c c := ⟨rfl, rfl, rfl⟩

theorem SameConfig.trans {c c' c'' : Cache} (h : SameConfig c c') (h' : SameConfig c' c'') :
    SameConfig c c'' :=
  ⟨h'.bufferCnt.trans h.bufferCnt, h'.writethru.trans h.writethru, h'.delay.trans h.delay⟩

/-! ## Single buffers -/

section Buffers

variable {c : Cache} {flat : Nat → UInt8} {i : Nat}

theorem Cache.setBlk_apply (c : Cache) (i : Nat) (b : Blk) (j : Nat) :
    (c.setBlk i b).blkTable j = if j = i then b else c.blkTable j := by
  unfold Cache.setBlk
  by_cases h : j = i
  · subst h
    simp
  · simp [h]

/-- Another cache with the same sectors in the same buffers. -/
structure SameBuffers (c c' : Cache) : Prop where
  blockSize : c'.blockSize = c.blockSize
  bufferCnt : c'.bufferCnt = c.bufferCnt
  lruList : c'.lruList = c.lruList
  freeList : c'.freeList = c.freeList
  hashList : c'.hashList = c.hashList
  inUse : ∀ j, (c'.blkTable j).inUse = (c.blkTable j).inUse
  sector : ∀ j, (c'.blkTable j).sector = (c.blkTable j).sector

/-- A buffer gets other bytes, or is marked as dirty or clean. -/
theorem SameBuffers.setBlk {b : Blk} (huse : b.inUse = (c.blkTable i).inUse)
    (hsec : b.sector = (c.blkTable i).sector) (dirtyList : List Nat) (dev : Nat → Buf) :
    SameBuffers c { c.setBlk i b with dirtyList := dirtyList, dev := dev } := by
  refine ⟨rfl, rfl, rfl, rfl, rfl, fun j => ?_, fun j => ?_⟩
  · show ((c.setBlk i b).blkTable j).inUse = _
    rw [Cache.setBlk_apply]
    split
    next hji => rw [hji, huse]
    · rfl
  · show ((c.setBlk i b).blkTable j).sector = _
    rw [Cache.setBlk_apply]
    split
    next hji => rw [hji, hsec]
    · rfl

/-- What such a cache stands for depends on its dirty buffers, its bytes and its device alone. -/
theorem Stands.keep {c' : Cache} {flat' : Nat → UInt8} (h : Stands c flat)
    (hs : SameBuffers c c') (hnodup : c'.dirtyList.Nodup)
    (hmem : ∀ j, j ∈ c'.dirtyList ↔ j < c.bufferCnt ∧ (c'.blkTable j).dirty = true)
    (hused : ∀ j, j < c.bufferCnt → (c'.blkTable j).dirty = true → (c.blkTable j).inUse = true)
    (hcached : ∀ j, j < c.bufferCnt → (c.blkTable j).inUse = true → ∀ a,
      a / 512 = (c.blkTable j).sector.toNat → (c'.blkTable j).mem (a % 512) = flat' a)
    (hdevice : ∀ a, (∀ j, j < c.bufferCnt → (c'.blkTable j).dirty = true →
      (c.blkTable j).sector ≠ (a / 512 : Nat)) → c'.dev (a / 512) (a % 512) = flat' a) :
    Stands c' flat' := by
  have hcnt := hs.bufferCnt
  refine ⟨hs.blockSize.trans h.block_size, by rw [hcnt]; exact h.some_buffer, ?_, fun j => ?_, ?_,
    fun j => ?_, fun k => ?_, fun k j => ?_, hnodup, fun j => ?_, fun j hj hd => ?_,
    fun j hj hu => ?_, fun j k hj hk => ?_, fun j hj hu => ?_, fun a ha => ?_⟩
  · rw [hs.lruList]
    exact h.lru_nodup
  · rw [hs.lruList, hcnt, hs.inUse]
    exact h.lru_mem j
  · rw [hs.freeList]
    exact h.free_nodup
  · rw [hs.freeList, hcnt, hs.inUse]
    exact h.free_mem j
  · rw [hs.hashList]
    exact h.hash_nodup k
  · rw [hs.hashList, hcnt, hs.inUse, hs.sector]
    exact h.hash_mem k j
  · rw [hcnt]
    exact hmem j
  · rw [hs.inUse]
    rw [hcnt] at hj
    exact hused j hj hd
  · rw [hs.sector]
    rw [hcnt] at hj
    rw [hs.inUse] at hu
    exact h.sector_nonneg j hj hu
  · rw [hs.inUse, hs.inUse, hs.sector, hs.sector]
    rw [hcnt] at hj hk
    exact h.sector_inj j k hj hk
  · rw [hs.sector]
    rw [hcnt] at hj
    rw [hs.inUse] at hu
    exact hcached j hj hu
  · refine hdevice a fun j hj hd => ?_
    rw [← hs.sector]
    rw [← hcnt] at hj
    exact ha j hj hd

theorem cleanBlock_blk (c : Cache) (i j : Nat) :
    (cleanBlock c i).blkTable j =
      if j = i then { c.blkTable i with dirty := false } else c.blkTable j :=
  c.setBlk_apply i _ j

theorem cleanBlock_dev (c : Cache) (i : Nat) :
    (cleanBlock c i).dev =
      Function.update c.dev (c.blkTable i).sector.toNat (c.blkTable i).mem := by
  unfold cleanBlock bufWriteSector
  simp [Cache.setBlk]

/-- Writing a buffer back keeps all as it is. -/
theorem cleanBlock_stands (h : Stands c flat) (hi : i < c.bufferCnt)
    (hused : (c.blkTable i).inUse = true) : Stands (cleanBlock c i) flat := by
  have hblk := cleanBlock_blk c i
  have hdirty : ∀ j, ((cleanBlock c i).blkTable j).dirty = true ↔
      j ≠ i ∧ (c.blkTable j).dirty = true := by
    intro j
    rw [hblk]
    by_cases hji : j = i
    · simp [hji]
    · simp [hji]
  have hmem : ∀ j, ((cleanBlock c i).blkTable j).mem = (c.blkTable j).mem := by
    intro j
    rw [hblk]
    by_cases hji : j = i
    · simp [hji]
    · simp [hji]
  have hs : SameBuffers c (cleanBlock c i) :=
    .setBlk (i := i) (b := { c.blkTable i with dirty := false }) rfl rfl _ _
  refine h.keep hs (h.dirty_nodup.erase i) (fun j => ?_)
    (fun j hj hd => h.dirty_used j hj ((hdirty j).mp hd).2) (fun j hj => ?_) fun a ha => ?_
  · show j ∈ c.dirtyList.erase i ↔ j < c.bufferCnt ∧ _
    rw [h.dirty_nodup.mem_erase_iff, h.dirty_mem, hdirty]
    exact and_left_comm
  · rw [hmem]
    exact h.cached j hj
  · -- the sector of the buffer has its bytes on the device now
    rw [cleanBlock_dev]
    by_cases hsame : a / 512 = (c.blkTable i).sector.toNat
    · rw [hsame, Function.update_self]
      exact h.cached i hi hused a hsame
    · rw [Function.update_of_ne hsame]
      refine h.device a fun j hj hd hsj => ?_
      by_cases hji : j = i
      · subst hji
        omega
      · exact ha j hj ((hdirty j).mpr ⟨hji, hd⟩) hsj

theorem unuseBlock_blk (c : Cache) (i j : Nat) :
    (unuseBlock c i).blkTable j =
      if j = i then { c.blkTable i with inUse := false } else c.blkTable j :=
  c.setBlk_apply i _ j

/-- Taking a clean buffer to the free list; what was in it is on the device. -/
theorem unuseBlock_stands (h : Stands c flat) (hi : i < c.bufferCnt)
    (hused : (c.blkTable i).inUse = true) (hclean : (c.blkTable i).dirty = false) :
    Stands (unuseBlock c i) flat := by
  have hblk := unuseBlock_blk c i
  have huse : ∀ j, ((unuseBlock c i).blkTable j).inUse = true ↔
      j ≠ i ∧ (c.blkTable j).inUse = true := by
    intro j
    rw [hblk]
    split <;> simp_all
  have hsec : ∀ j, ((unuseBlock c i).blkTable j).sector = (c.blkTable j).sector := by
    intro j
    rw [hblk]
    split <;> simp_all
  have hmem : ∀ j, ((unuseBlock c i).blkTable j).mem = (c.blkTable j).mem := by
    intro j
    rw [hblk]
    split <;> simp_all
  have hdirty : ∀ j, ((unuseBlock c i).blkTable j).dirty = (c.blkTable j).dirty := by
    intro j
    rw [hblk]
    split <;> simp_all
  refine ⟨h.block_size, h.some_buffer, h.lru_nodup.erase i, fun j => ?_, ?_,
    fun j => ?_, fun k => ?_, fun k j => ?_, h.dirty_nodup, fun j => ?_, fun j hj hd => ?_,
    fun j hj hu => ?_, fun j k hj hk hu hu' => ?_, fun j hj hu => ?_, fun a ha => ?_⟩
  · show j ∈ c.lruList.erase i ↔ j < c.bufferCnt ∧ _
    rw [h.lru_nodup.mem_erase_iff, h.lru_mem, huse]
    exact and_left_comm
  · -- a buffer in use is not on the free list
    refine List.nodup_cons.mpr ⟨fun hmem => ?_, h.free_nodup⟩
    rw [h.free_mem, hused] at hmem
    cases hmem.2
  · show j ∈ i :: c.freeList ↔ j < c.bufferCnt ∧ _
    rw [List.mem_cons, h.free_mem, ← Bool.not_eq_true, ← Bool.not_eq_true, huse]
    by_cases hji : j = i
    · simp [hji, hi]
    · simp [hji]
  · -- of the hash lists, only the one of the sector is another
    unfold unuseBlock
    by_cases hk : k = hashIdx (c.blkTable i).sector
    · simp only [hk, Function.update_self]
      exact (h.hash_nodup _).erase i
    · simp only [Function.update_of_ne hk]
      exact h.hash_nodup k
  · rw [huse, hsec]
    unfold unuseBlock
    -- a buffer with this hash leaves the list, and no other buffer does
    by_cases hk : k = hashIdx (c.blkTable i).sector
    · subst hk
      simp only [Function.update_self]
      rw [(h.hash_nodup _).mem_erase_iff, h.hash_mem]
      simp only [Cache.setBlk]
      tauto
    · simp only [Function.update_of_ne hk]
      rw [h.hash_mem]
      simp only [Cache.setBlk]
      constructor
      · rintro ⟨hj, hu, rfl⟩
        exact ⟨hj, ⟨fun hji => hk (by rw [hji]), hu⟩, rfl⟩
      · rintro ⟨hj, ⟨-, hu⟩, hh⟩
        exact ⟨hj, hu, hh⟩
  · rw [hdirty]
    exact h.dirty_mem j
  · -- the buffer is clean, so the dirty ones are still in use
    rw [hdirty] at hd
    refine (huse j).mpr ⟨fun hji => ?_, h.dirty_used j hj hd⟩
    rw [hji, hclean] at hd
    cases hd
  · rw [hsec]
    exact h.sector_nonneg j hj ((huse j).mp hu).2
  · rw [hsec, hsec]
    exact h.sector_inj j k hj hk ((huse j).mp hu).2 ((huse k).mp hu').2
  · rw [hsec, hmem]
    exact h.cached j hj ((huse j).mp hu).2
  · -- no byte of the device is only in this buffer
    refine h.device a fun j hj hd => ?_
    rw [← hsec]
    exact ha j hj (by rw [hdirty]; exact hd)

/-- Taking a buffer from the LRU list; no byte is lost and no sector comes in. -/
theorem evictBlock_stands (h : Stands c flat) (hi : i ∈ c.lruList) :
    Stands (evictBlock c i) flat ∧ (evictBlock c i).freeList = i :: c.freeList ∧
      SameConfig c (evictBlock c i) ∧
      ∀ j, ((evictBlock c i).blkTable j).inUse = true →
        (c.blkTable j).inUse = true ∧
          ((evictBlock c i).blkTable j).sector = (c.blkTable j).sector := by
  obtain ⟨hlt, hused⟩ := (h.lru_mem i).mp hi
  unfold evictBlock
  by_cases hd : (c.blkTable i).dirty = true
  · rw [if_pos hd]
    have hblk := cleanBlock_blk c i
    have hi' := (hblk i).trans (if_pos rfl)
    refine ⟨unuseBlock_stands (cleanBlock_stands h hlt hused) hlt ?_ ?_, rfl, ⟨rfl, rfl, rfl⟩,
      fun j hj => ?_⟩
    · rw [hi']
      exact hused
    · rw [hi']
    · rw [unuseBlock_blk] at hj ⊢
      by_cases hji : j = i
      · rw [if_pos hji] at hj
        cases hj
      · rw [if_neg hji, hblk, if_neg hji] at hj ⊢
        exact ⟨hj, rfl⟩
  · rw [if_neg hd]
    refine ⟨unuseBlock_stands h hlt hused (by simpa using hd), rfl, ⟨rfl, rfl, rfl⟩,
      fun j hj => ?_⟩
    rw [unuseBlock_blk] at hj ⊢
    by_cases hji : j = i
    · rw [if_pos hji] at hj
      cases hj
    · rw [if_neg hji] at hj ⊢
      exact ⟨hj, rfl⟩

theorem loadBlock_blk (c : Cache) (i block j : Nat) :
    (loadBlock c i block).blkTable j =
      if j = i then ⟨block, false, c.dev block, true⟩ else c.blkTable j := by
  unfold loadBlock bufReadSector
  rw [Cache.setBlk_apply]
  by_cases hji : j = i
  · rw [if_pos hji, if_pos hji]
    simp [Cache.setBlk]
  · rw [if_neg hji, if_neg hji]
    simp [Cache.setBlk, hji]

/-- A buffer that a list does not have goes to its head. -/
theorem push_head {l : List Nat} {P Q : Nat → Prop} (hnodup : l.Nodup) (hmem : ∀ j, j ∈ l ↔ P j)
    (hi : ¬ P i) (hQ : ∀ j, Q j ↔ j = i ∨ P j) : (i :: l).Nodup ∧ ∀ j, j ∈ i :: l ↔ Q j := by
  refine ⟨List.nodup_cons.mpr ⟨fun hm => hi ((hmem i).mp hm), hnodup⟩, fun j => ?_⟩
  rw [List.mem_cons, hmem, hQ]

/-- The buffer at the head of a list leaves it. -/
theorem pop_head {l : List Nat} {P Q : Nat → Prop} (hnodup : (i :: l).Nodup)
    (hmem : ∀ j, j ∈ i :: l ↔ P j) (hQ : ∀ j, Q j ↔ j ≠ i ∧ P j) :
    l.Nodup ∧ ∀ j, j ∈ l ↔ Q j := by
  rw [List.nodup_cons] at hnodup
  refine ⟨hnodup.2, fun j => ?_⟩
  rw [hQ, ← hmem, List.mem_cons]
  refine ⟨fun hj => ⟨?_, .inr hj⟩, fun hj => hj.2.resolve_left hj.1⟩
  rintro rfl
  exact hnodup.1 hj

/-- A free buffer has nothing to be written. -/
theorem Stands.free_head (h : Stands c flat) {rest : List Nat} (hfree : c.freeList = i :: rest) :
    i < c.bufferCnt ∧ (c.blkTable i).inUse = false ∧ (c.blkTable i).dirty ≠ true := by
  have hmem : i ∈ c.freeList := by
    rw [hfree]
    exact List.mem_cons_self
  obtain ⟨hi, hunused⟩ := (h.free_mem i).mp hmem
  refine ⟨hi, hunused, fun hd => ?_⟩
  rw [h.dirty_used i hi hd] at hunused
  cases hunused

theorem loadBlock_inUse (c : Cache) (i block j : Nat) :
    ((loadBlock c i block).blkTable j).inUse = true ↔ j = i ∨ (c.blkTable j).inUse = true := by
  rw [loadBlock_blk]
  split
  next hji => exact iff_of_true rfl (.inl hji)
  next hji => rw [or_iff_right hji]

theorem loadBlock_sector (c : Cache) (i block j : Nat) :
    ((loadBlock c i block).blkTable j).sector =
      if j = i then (block : Int) else (c.blkTable j).sector := by
  rw [loadBlock_blk]
  split
  · rfl
  · rfl

theorem loadBlock_dirty (hclean : (c.blkTable i).dirty ≠ true) (block j : Nat) :
    ((loadBlock c i block).blkTable j).dirty = true ↔ (c.blkTable j).dirty = true := by
  rw [loadBlock_blk]
  split
  next hji =>
    rw [hji]
    exact iff_of_false Bool.false_ne_true hclean
  · rfl

/-- The buffer goes from the free list to the head of the list of those in use. -/
theorem loadBlock_used (h : Stands c flat) {rest : List Nat} (hfree : c.freeList = i :: rest)
    (block : Nat) : (loadBlock c i block).lruList.Nodup ∧
      ∀ j, j ∈ (loadBlock c i block).lruList ↔
        j < c.bufferCnt ∧ ((loadBlock c i block).blkTable j).inUse = true := by
  obtain ⟨hi, hunused, -⟩ := h.free_head hfree
  refine push_head h.lru_nodup h.lru_mem (fun hin => ?_) fun j => ?_
  · rw [hunused] at hin
    exact Bool.false_ne_true hin.2
  · rw [loadBlock_inUse, and_or_left, and_iff_right_of_imp fun hji : j = i => hji ▸ hi]

theorem loadBlock_free (h : Stands c flat) {rest : List Nat} (hfree : c.freeList = i :: rest)
    (block : Nat) : (loadBlock c i block).freeList.Nodup ∧
      ∀ j, j ∈ (loadBlock c i block).freeList ↔
        j < c.bufferCnt ∧ ((loadBlock c i block).blkTable j).inUse = false := by
  have hnodup := h.free_nodup
  have hmem := h.free_mem
  rw [hfree] at hnodup hmem
  show c.freeList.tail.Nodup ∧ ∀ j, j ∈ c.freeList.tail ↔ _
  rw [hfree, List.tail_cons]
  refine pop_head hnodup hmem fun j => ?_
  rw [← Bool.not_eq_true, loadBlock_inUse, not_or, Bool.not_eq_true, and_left_comm]

/-- A buffer that is filled goes to the head of the hash list of its sector. -/
theorem loadBlock_hash (h : Stands c flat) {rest : List Nat} (hfree : c.freeList = i :: rest)
    (block k : Nat) : ((loadBlock c i block).hashList k).Nodup ∧
      ∀ j, j ∈ (loadBlock c i block).hashList k ↔ j < c.bufferCnt ∧
        ((loadBlock c i block).blkTable j).inUse = true ∧
        hashIdx ((loadBlock c i block).blkTable j).sector = k := by
  obtain ⟨hi, hunused, -⟩ := h.free_head hfree
  have hunhashed : ¬ (i < c.bufferCnt ∧ (c.blkTable i).inUse = true ∧
      hashIdx (c.blkTable i).sector = k) := by
    intro hin
    rw [hunused] at hin
    exact Bool.false_ne_true hin.2.1
  have hother : ∀ j, j ≠ i → (((loadBlock c i block).blkTable j).inUse = true ∧
      hashIdx ((loadBlock c i block).blkTable j).sector = k ↔
        (c.blkTable j).inUse = true ∧ hashIdx (c.blkTable j).sector = k) := by
    intro j hji
    rw [loadBlock_blk, if_neg hji]
  have hself : ((loadBlock c i block).blkTable i).inUse = true ∧
      hashIdx ((loadBlock c i block).blkTable i).sector = hashIdx block := by
    rw [loadBlock_blk, if_pos rfl]
    exact ⟨rfl, rfl⟩
  show (Function.update c.hashList (hashIdx block) (i :: c.hashList (hashIdx block)) k).Nodup ∧
    ∀ j, j ∈ Function.update c.hashList (hashIdx block) (i :: c.hashList (hashIdx block)) k ↔ _
  by_cases hk : k = hashIdx block
  · rw [← hk, Function.update_self]
    refine push_head (h.hash_nodup k) (h.hash_mem k) hunhashed fun j => ?_
    by_cases hji : j = i
    · rw [hji, hk]
      exact iff_of_true ⟨hi, hself⟩ (.inl rfl)
    · rw [hother j hji, or_iff_right hji]
  · rw [Function.update_of_ne hk]
    refine ⟨h.hash_nodup k, fun j => (h.hash_mem k j).trans ?_⟩
    by_cases hji : j = i
    · rw [hji]
      exact iff_of_false hunhashed fun hin => hk (hin.2.2.symm.trans hself.2)
    · rw [hother j hji]

/-- Reading a sector that is in no buffer into the first free one. -/
theorem loadBlock_stands (h : Stands c flat) {rest : List Nat} (hfree : c.freeList = i :: rest)
    {block : Nat} (hnew : ∀ j, j < c.bufferCnt → (c.blkTable j).inUse = true →
      (c.blkTable j).sector ≠ block) : Stands (loadBlock c i block) flat := by
  obtain ⟨hi, hunused, hclean⟩ := h.free_head hfree
  have huse := loadBlock_inUse c i block
  have hdirty := loadBlock_dirty hclean block
  have hsec := loadBlock_sector c i block
  obtain ⟨hlru, hlru'⟩ := loadBlock_used h hfree block
  obtain ⟨hfreed, hfreed'⟩ := loadBlock_free h hfree block
  refine ⟨h.block_size, h.some_buffer, hlru, hlru', hfreed, hfreed',
    fun k => (loadBlock_hash h hfree block k).1, fun k => (loadBlock_hash h hfree block k).2,
    h.dirty_nodup, fun j => ?_, fun j hj hd => ?_, fun j hj hu => ?_,
    fun j k hj hk hu hu' hs => ?_, fun j hj hu a ha => ?_, fun a ha => ?_⟩
  · rw [hdirty]
    exact h.dirty_mem j
  · exact (huse j).mpr (.inr (h.dirty_used j hj ((hdirty j).mp hd)))
  · rw [hsec]
    by_cases hji : j = i
    · rw [if_pos hji]
      exact Int.natCast_nonneg block
    · rw [if_neg hji]
      exact h.sector_nonneg j hj (((huse j).mp hu).resolve_left hji)
  · -- no other buffer has the sector that is read
    rw [hsec, hsec] at hs
    have hu := (huse j).mp hu
    have hu' := (huse k).mp hu'
    by_cases hji : j = i
    · by_cases hki : k = i
      · rw [hji, hki]
      · rw [if_pos hji, if_neg hki] at hs
        exact absurd hs.symm (hnew k hk (hu'.resolve_left hki))
    · by_cases hki : k = i
      · rw [if_neg hji, if_pos hki] at hs
        exact absurd hs (hnew j hj (hu.resolve_left hji))
      · rw [if_neg hji, if_neg hki] at hs
        exact h.sector_inj j k hj hk (hu.resolve_left hji) (hu'.resolve_left hki) hs
  · rw [loadBlock_blk] at ha ⊢
    by_cases hji : j = i
    · rw [if_pos hji] at ha ⊢
      -- what was read is what the device had
      rw [Int.toNat_natCast] at ha
      rw [← ha]
      refine h.device a fun m hm hd hs => ?_
      rw [ha] at hs
      exact hnew m hm (h.dirty_used m hm hd) hs
    · rw [if_neg hji] at ha ⊢
      exact h.cached j hj (((huse j).mp hu).resolve_left hji) a ha
  · refine h.device a fun j hj hd => ?_
    have hji : j ≠ i := by
      rintro rfl
      exact hclean hd
    have hoff := ha j hj ((hdirty j).mpr hd)
    rwa [hsec, if_neg hji] at hoff

/-- `BufGetBlock` finds the buffer of a sector or makes one; the flat array stays. -/
theorem bufGetBlock_spec (h : Stands c flat) (block : Nat) :
    ∃ c' i, bufGetBlock c block = .ok (c', i) ∧ Stands c' flat ∧ SameConfig c c' ∧
      i < c'.bufferCnt ∧ (c'.blkTable i).inUse = true ∧ (c'.blkTable i).sector = block := by
  unfold bufGetBlock
  cases hfind : (c.hashList (hashIdx block)).find? fun i => (c.blkTable i).sector == block with
  | some i =>
    obtain ⟨hi, hused, -⟩ := (h.hash_mem _ _).mp (List.mem_of_find?_eq_some hfind)
    have hsector : (c.blkTable i).sector = block := by simpa using List.find?_some hfind
    refine ⟨_, i, rfl, { h with lru_nodup := ?_, lru_mem := fun j => ?_ }, ⟨rfl, rfl, rfl⟩,
      hi, hused, hsector⟩
    · refine List.nodup_cons.mpr ⟨fun hm => ?_, h.lru_nodup.erase i⟩
      exact (h.lru_nodup.mem_erase_iff.mp hm).1 rfl
    · rw [List.mem_cons, h.lru_nodup.mem_erase_iff, h.lru_mem]
      by_cases hji : j = i
      · simp [hji, hi, hused]
      · simp [hji]
  | none =>
    have hnew : ∀ j, j < c.bufferCnt → (c.blkTable j).inUse = true →
        (c.blkTable j).sector ≠ block := by
      intro j hj hu hs
      have hmem : j ∈ c.hashList (hashIdx block) := (h.hash_mem _ _).mpr ⟨hj, hu, by rw [hs]⟩
      have := List.find?_eq_none.mp hfind j hmem
      simp [hs] at this
    cases hfree : c.freeList with
    | cons i rest =>
      have hblk := (loadBlock_blk c i block i).trans (if_pos rfl)
      exact ⟨_, i, rfl, loadBlock_stands h hfree hnew, ⟨rfl, rfl, rfl⟩, (h.free_head hfree).1,
        congrArg Blk.inUse hblk, congrArg Blk.sector hblk⟩
    | nil =>
      -- no buffer is free, so some buffer is in use
      have hsome : c.lruList ≠ [] := by
        intro hnil
        have hnot : (0 : Nat) ∉ c.lruList := by simp [hnil]
        have hnot' : (0 : Nat) ∉ c.freeList := by simp [hfree]
        rw [h.lru_mem] at hnot
        rw [h.free_mem] at hnot'
        have hpos := h.some_buffer
        cases hu : (c.blkTable 0).inUse with
        | true => exact hnot ⟨hpos, hu⟩
        | false => exact hnot' ⟨hpos, hu⟩
      have hlast := List.getLast?_eq_some_getLast hsome
      have hmem : c.lruList.getLast hsome ∈ c.lruList := List.getLast_mem hsome
      rw [hlast]
      generalize c.lruList.getLast hsome = i at hmem
      obtain ⟨hevict, hlist, hcfg, hfields⟩ := evictBlock_stands h hmem
      rw [hfree] at hlist
      have hblk := (loadBlock_blk (evictBlock c i) i block i).trans (if_pos rfl)
      refine ⟨_, i, rfl, loadBlock_stands hevict hlist fun j hj hu => ?_, hcfg.trans ⟨rfl, rfl, rfl⟩, ?_,
        congrArg Blk.inUse hblk, congrArg Blk.sector hblk⟩
      · obtain ⟨hu', hs⟩ := hfields j hu
        rw [hs]
        exact hnew j (by rwa [hcfg.bufferCnt] at hj) hu'
      · show i < (evictBlock c i).bufferCnt
        rw [hcfg.bufferCnt]
        exact ((h.lru_mem i).mp hmem).1

/-- The flat array with the bytes of one sector replaced. -/
def withSector (flat : Nat → UInt8) (sector : Nat) (mem : Buf) (a : Nat) : UInt8 :=
  if a / 512 = sector then mem (a % 512) else flat a

/-- New bytes in buffer `i`, which is dirty and on the dirty list from then on. -/
def markBlock (c : Cache) (i : Nat) (mem : Buf) : Cache :=
  { c.setBlk i { c.blkTable i with mem := mem, dirty := true } with
    dirtyList := if (c.blkTable i).dirty = true then c.dirtyList else c.dirtyList ++ [i] }

/-- A dirty buffer with new bytes replaces the bytes of its sector. -/
theorem markBlock_stands (h : Stands c flat) (hi : i < c.bufferCnt)
    (hused : (c.blkTable i).inUse = true) {sector : Nat} (hsector : (c.blkTable i).sector = sector)
    (mem : Buf) : Stands (markBlock c i mem) (withSector flat sector mem) := by
  have hblk : ∀ j, (markBlock c i mem).blkTable j =
      if j = i then { c.blkTable i with mem := mem, dirty := true } else c.blkTable j :=
    c.setBlk_apply i { c.blkTable i with mem := mem, dirty := true }
  have hdirty : ∀ j, ((markBlock c i mem).blkTable j).dirty = true ↔
      j = i ∨ (c.blkTable j).dirty = true := by
    intro j
    rw [hblk]
    by_cases hji : j = i
    · simp [hji]
    · simp [hji]
  have hs : SameBuffers c (markBlock c i mem) :=
    .setBlk (i := i) (b := { c.blkTable i with mem := mem, dirty := true }) rfl rfl _ _
  refine h.keep hs ?_ (fun j => ?_) (fun j hj hd => ?_)
    (fun j hj hu a ha => ?_) fun a ha => ?_
  · show (if (c.blkTable i).dirty = true then c.dirtyList else c.dirtyList ++ [i]).Nodup
    split
    · exact h.dirty_nodup
    next hd =>
      refine List.nodup_append.mpr ⟨h.dirty_nodup, List.pairwise_singleton _ i, fun j hj k hk => ?_⟩
      rw [List.mem_singleton.mp hk]
      rintro rfl
      exact hd ((h.dirty_mem j).mp hj).2
  · rw [hdirty]
    show j ∈ (if (c.blkTable i).dirty = true then c.dirtyList else c.dirtyList ++ [i]) ↔
      j < c.bufferCnt ∧ _
    by_cases hd : (c.blkTable i).dirty = true
    · rw [if_pos hd, h.dirty_mem]
      by_cases hji : j = i
      · simp [hji, hd, hi]
      · simp [hji]
    · rw [if_neg hd, List.mem_append, List.mem_singleton, h.dirty_mem]
      by_cases hji : j = i
      · simp [hji, hi]
      · simp [hji]
  · rcases (hdirty j).mp hd with hji | hd
    · rw [hji]
      exact hused
    · exact h.dirty_used j hj hd
  · rw [hblk]
    by_cases hji : j = i
    · rw [hji, hsector, Int.toNat_natCast] at ha
      rw [if_pos hji, withSector, if_pos ha]
    · -- another buffer has another sector
      have hne : a / 512 ≠ sector := by
        intro he
        have hnn := h.sector_nonneg j hj hu
        exact hji (h.sector_inj j i hj hi hu hused (by omega))
      rw [if_neg hji, withSector, if_neg hne]
      exact h.cached j hj hu a ha
  · -- the sector has a dirty buffer, so nothing is said of its bytes on the device
    have hne : a / 512 ≠ sector := by
      intro he
      exact ha i hi ((hdirty i).mpr (.inl rfl)) (by rw [hsector, he])
    rw [withSector, if_neg hne]
    exact h.device a fun j hj hd => ha j hj ((hdirty j).mpr (.inr hd))

/-- Writing a buffer to the device changes no byte. -/
theorem bufWriteSector_stands (h : Stands c flat) (hi : i < c.bufferCnt)
    (hused : (c.blkTable i).inUse = true) : Stands (bufWriteSector c i) flat := by
  refine { h with device := fun a ha => ?_ }
  show Function.update c.dev (c.blkTable i).sector.toNat (c.blkTable i).mem (a / 512) (a % 512) = _
  by_cases hs : a / 512 = (c.blkTable i).sector.toNat
  · rw [hs, Function.update_self]
    exact h.cached i hi hused a hs
  · rw [Function.update_of_ne hs]
    exact h.device a ha

/-- `BUF_ONESHOT`: a buffer goes to the end of the LRU list. -/
theorem Stands.oneshot (h : Stands c flat) (hi : i < c.bufferCnt)
    (hused : (c.blkTable i).inUse = true) :
    Stands { c with lruList := c.lruList.erase i ++ [i] } flat := by
  refine { h with lru_nodup := ?_, lru_mem := fun j => ?_ }
  · refine List.nodup_append.mpr ⟨h.lru_nodup.erase i, List.pairwise_singleton _ i,
      fun j hj k hk => ?_⟩
    rw [List.mem_singleton.mp hk]
    exact (h.lru_nodup.mem_erase_iff.mp hj).1
  · show j ∈ c.lruList.erase i ++ [i] ↔ j < c.bufferCnt ∧ _
    rw [List.mem_append, List.mem_singleton, h.lru_nodup.mem_erase_iff, h.lru_mem]
    by_cases hji : j = i
    · simp [hji, hi, hused]
    · simp [hji]

/-- A buffer that is put back to be written now is cleaned; any other is marked, and
written as well where there is no write-back delay. -/
theorem bufPutBlock_eq (i : Nat) (mem : Buf) {immed : Bool} (hdirty : ∀ j, j ∈ c.dirtyList →
      (c.blkTable j).dirty = true) (hmode : immed = true → c.writethruCritical = true) :
    bufPutBlock (c.setBlk i { c.blkTable i with mem := mem }) i ⟨immed, false⟩ =
      if immed = true then cleanBlock (markBlock c i mem) i
      else if c.writebackDelay = 0 then bufWriteSector (markBlock c i mem) i
      else markBlock c i mem := by
  unfold bufPutBlock
  simp only [Bool.false_eq_true, if_false]
  cases immed with
  | true =>
    have hthru := hmode rfl
    simp only [if_true]
    by_cases hd : (c.blkTable i).dirty = true
    · simp [Cache.setBlk, hd, hthru, cleanBlock, markBlock, bufWriteSector]
    · have hnot : i ∉ c.dirtyList := fun hin => hd (hdirty i hin)
      have herase : (c.dirtyList ++ [i]).erase i = c.dirtyList := by
        rw [List.erase_append_right _ hnot]
        simp
      have hclean : (c.blkTable i).dirty = false := by simpa using hd
      simp [Cache.setBlk, hclean, hthru, cleanBlock, markBlock, bufWriteSector, herase]
  | false =>
    simp only [Bool.false_eq_true, if_false]
    by_cases hd : (c.blkTable i).dirty = true
    · simp [Cache.setBlk, hd, markBlock, bufWriteSector]
    · have hclean : (c.blkTable i).dirty = false := by simpa using hd
      simp [Cache.setBlk, hclean, markBlock, bufWriteSector]

/-- Putting back a buffer with new bytes replaces the bytes of its sector, unless it
should be written now and is not. -/
theorem bufPutBlock_spec (h : Stands c flat) (hi : i < c.bufferCnt)
    (hused : (c.blkTable i).inUse = true) {sector : Nat} (hsector : (c.blkTable i).sector = sector)
    (mem : Buf) (mode : Mode) (hmode : mode.immed = true → c.writethruCritical = true) :
    Stands (bufPutBlock (c.setBlk i { c.blkTable i with mem := mem }) i mode)
      (withSector flat sector mem) ∧
    SameConfig c (bufPutBlock (c.setBlk i { c.blkTable i with mem := mem }) i mode) := by
  have hplain : ∀ {c : Cache}, Stands c flat → i < c.bufferCnt → (c.blkTable i).inUse = true →
      (c.blkTable i).sector = sector → (mode.immed = true → c.writethruCritical = true) →
      Stands (bufPutBlock (c.setBlk i { c.blkTable i with mem := mem }) i ⟨mode.immed, false⟩)
        (withSector flat sector mem) ∧
      SameConfig c
        (bufPutBlock (c.setBlk i { c.blkTable i with mem := mem }) i ⟨mode.immed, false⟩) := by
    intro c h hi hused hsector hmode
    rw [bufPutBlock_eq i mem (fun j hj => ((h.dirty_mem j).mp hj).2) hmode]
    have hmark := markBlock_stands h hi hused hsector mem
    have hused' : ((markBlock c i mem).blkTable i).inUse = true := by
      simp [markBlock, Cache.setBlk, hused]
    split
    · exact ⟨cleanBlock_stands hmark hi hused', rfl, rfl, rfl⟩
    · split
      · exact ⟨bufWriteSector_stands hmark hi hused', rfl, rfl, rfl⟩
      · exact ⟨hmark, rfl, rfl, rfl⟩
  obtain ⟨immed, oneshot⟩ := mode
  cases oneshot with
  | false => exact hplain h hi hused hsector hmode
  | true =>
    obtain ⟨hput, hcfg⟩ := hplain (h.oneshot hi hused) hi hused hsector hmode
    exact ⟨hput, hcfg.bufferCnt, hcfg.writethru, hcfg.delay⟩

theorem syncLoop_stands (n : Nat) : ∀ c : Cache, Stands c flat → Stands (syncLoop n c) flat := by
  induction n with
  | zero => exact fun _ h => h
  | succ n ih =>
    intro c h
    unfold syncLoop
    cases hd : c.dirtyList with
    | nil => exact h
    | cons i rest =>
      have hmem : i ∈ c.dirtyList := by rw [hd]; exact List.mem_cons_self ..
      obtain ⟨hi, hdirty⟩ := (h.dirty_mem i).mp hmem
      exact ih _ (cleanBlock_stands h hi (h.dirty_used i hi hdirty))

theorem syncLoop_config (n : Nat) : ∀ c : Cache, SameConfig c (syncLoop n c) := by
  induction n with
  | zero => exact .refl
  | succ n ih =>
    intro c
    unfold syncLoop
    split
    next => exact .refl c
    next i _ _ =>
      have hclean : SameConfig c (cleanBlock c i) := ⟨rfl, rfl, rfl⟩
      exact hclean.trans (ih _)

/-- `SyncCache` writes every dirty buffer and changes no byte. -/
theorem syncCache_stands (h : Stands c flat) :
    Stands (syncCache c) flat ∧ SameConfig c (syncCache c) :=
  ⟨syncLoop_stands _ c h, syncLoop_config _ c⟩

end Buffers

/-! ## Ranges of bytes -/

section Ranges

variable {c : Cache} {flat : Nat → UInt8}

/-- The flat array from byte `start` on. -/
def slice (flat : Nat → UInt8) (start n : Nat) : List UInt8 :=
  (List.range n).map fun k => flat (start + k)

/-- The flat array with `data` at byte `start` and after. -/
def patch (flat : Nat → UInt8) (start : Nat) (data : List UInt8) (a : Nat) : UInt8 :=
  if start ≤ a ∧ a < start + data.length then data.getD (a - start) 0 else flat a

theorem slice_append (flat : Nat → UInt8) (start n m : Nat) :
    slice flat start n ++ slice flat (start + n) m = slice flat start (n + m) := by
  unfold slice
  rw [List.range_add, List.map_append, List.map_map]
  congr 1
  refine List.map_congr_left fun k _ => ?_
  simp only [Function.comp]
  rw [Nat.add_assoc]

theorem patch_nil (flat : Nat → UInt8) (start : Nat) : patch flat start [] = flat := by
  funext a
  unfold patch
  rw [if_neg (by simp)]

/-- The flat array from byte `start` on, sector 0 coming after the last one a 32-bit
number counts. -/
def ringSlice (flat : Nat → UInt8) (start n : Nat) : List UInt8 :=
  (List.range n).map fun k => flat ((start + k) % 2 ^ 41)

/-- The flat array with `data` at byte `start` and after, in the same way. -/
def ringPatch (flat : Nat → UInt8) (start : Nat) (data : List UInt8) (a : Nat) : UInt8 :=
  if a < 2 ^ 41 ∧ (a + 2 ^ 41 - start) % 2 ^ 41 < data.length then
    data.getD ((a + 2 ^ 41 - start) % 2 ^ 41) 0
  else flat a

theorem ringSlice_eq (flat : Nat → UInt8) {start n : Nat} (h : start + n ≤ 2 ^ 41) :
    ringSlice flat start n = slice flat start n := by
  refine List.map_congr_left fun k hk => ?_
  rw [List.mem_range] at hk
  rw [Nat.mod_eq_of_lt (by omega)]

theorem ringPatch_eq (flat : Nat → UInt8) {start : Nat} {data : List UInt8}
    (h : start + data.length ≤ 2 ^ 41) : ringPatch flat start data = patch flat start data := by
  funext a
  unfold ringPatch patch
  by_cases hin : start ≤ a ∧ a < start + data.length
  · rw [if_pos hin, if_pos (by omega)]
    congr 1
    omega
  · rw [if_neg hin, if_neg (by omega)]

theorem ringPatch_start (flat : Nat → UInt8) {start : Nat} {data : List UInt8}
    (hlt : start < 2 ^ 41) (hlen : 0 < data.length) :
    ringPatch flat start data start = data.getD 0 0 := by
  unfold ringPatch
  rw [Nat.add_sub_cancel_left, Nat.mod_self, if_pos ⟨hlt, hlen⟩]

theorem ringSlice_append (flat : Nat → UInt8) (start n m : Nat) :
    ringSlice flat start n ++ ringSlice flat ((start + n) % 2 ^ 41) m =
      ringSlice flat start (n + m) := by
  unfold ringSlice
  rw [List.range_add, List.map_append, List.map_map]
  congr 1
  refine List.map_congr_left fun k _ => ?_
  simp only [Function.comp]
  congr 1
  omega

theorem ringPatch_append (flat : Nat → UInt8) {start : Nat} (hstart : start < 2 ^ 41)
    {data data' : List UInt8} (hlen : data.length + data'.length ≤ 2 ^ 41) :
    ringPatch (ringPatch flat start data) ((start + data.length) % 2 ^ 41) data' =
      ringPatch flat start (data ++ data') := by
  funext a
  unfold ringPatch
  rw [List.length_append]
  by_cases ha : a < 2 ^ 41
  · by_cases h1 : (a + 2 ^ 41 - start) % 2 ^ 41 < data.length
    · rw [if_neg (by omega), if_pos ⟨ha, h1⟩, if_pos (by omega), List.getD_append _ _ _ _ h1]
    · by_cases h2 : (a + 2 ^ 41 - start) % 2 ^ 41 < data.length + data'.length
      · rw [if_pos (by omega), if_pos ⟨ha, h2⟩, List.getD_append_right _ _ _ _ (by omega)]
        congr 1
        omega
      · rw [if_neg (by omega), if_neg fun h => h1 h.2, if_neg fun h => h2 h.2]
  · rw [if_neg fun h => ha h.1, if_neg fun h => ha h.1, if_neg fun h => ha h.1]

/-- Bytes of a buffer are bytes of the array. -/
theorem Stands.getBytes_eq (h : Stands c flat) {i block : Nat} (hi : i < c.bufferCnt)
    (hused : (c.blkTable i).inUse = true) (hsector : (c.blkTable i).sector = block)
    {offset n : Nat} (hfit : offset + n ≤ 512) :
    getBytes (c.blkTable i).mem offset n = slice flat (512 * block + offset) n := by
  refine List.map_congr_left fun k hk => ?_
  rw [List.mem_range] at hk
  have hdiv : (512 * block + offset + k) / 512 = block := by omega
  have hmod : (512 * block + offset + k) % 512 = offset + k := by omega
  rw [← h.cached i hi hused (512 * block + offset + k) (by rw [hsector, hdiv, Int.toNat_natCast]),
    hmod]

/-- Storing bytes in a buffer stores them in the array. -/
theorem Stands.withSector_stBytes (h : Stands c flat) {i block : Nat} (hi : i < c.bufferCnt)
    (hused : (c.blkTable i).inUse = true) (hsector : (c.blkTable i).sector = block)
    {offset : Nat} {data : List UInt8} (hfit : offset + data.length ≤ 512) :
    withSector flat block (stBytes (c.blkTable i).mem offset data) =
      patch flat (512 * block + offset) data := by
  funext a
  unfold withSector patch
  by_cases hs : a / 512 = block
  · rw [if_pos hs]
    by_cases hin : offset ≤ a % 512 ∧ a % 512 < offset + data.length
    · rw [stBytes_apply hin.1 hin.2, if_pos (by omega)]
      congr 1
      omega
    · rw [stBytes_apply_ne (by omega), if_neg (by omega)]
      exact h.cached i hi hused a (by rw [hsector, hs, Int.toNat_natCast])
  · rw [if_neg hs, if_neg (by omega)]

/-- Nothing left to read. -/
theorem bufReadBlocks_zero (fuel : Nat) (c : Cache) (block offset : Nat) :
    bufReadBlocks (fuel + 1) c block offset 0 = .ok (c, []) := by
  rw [bufReadBlocks, if_pos rfl]

/-- `BufReadBlocks` reads the array, around the end of the sector numbers. -/
theorem bufReadBlocks_ring (fuel : Nat) : ∀ (c : Cache) (block offset nbytes : Nat), Stands c flat →
    block < 2 ^ 32 → offset < 512 → nbytes < fuel →
    ∃ c', bufReadBlocks fuel c block offset nbytes =
        .ok (c', ringSlice flat (512 * block + offset) nbytes) ∧
      Stands c' flat ∧ SameConfig c c' := by
  induction fuel with
  | zero => exact fun _ _ _ _ _ _ _ h => absurd h (Nat.not_lt_zero _)
  | succ fuel ih =>
    intro c block offset nbytes h hblock hoff hfuel
    unfold bufReadBlocks
    by_cases h0 : nbytes = 0
    · rw [if_pos h0, h0]
      exact ⟨c, rfl, h, .refl c⟩
    · rw [if_neg h0, h.block_size]
      simp only
      have hn : offset + min nbytes (512 - offset) ≤ 512 ∧ 0 < min nbytes (512 - offset) ∧
          (min nbytes (512 - offset) = nbytes ∨ offset + min nbytes (512 - offset) = 512) ∧
          min nbytes (512 - offset) ≤ nbytes := by omega
      generalize min nbytes (512 - offset) = n at hn
      obtain ⟨hfit, hpos, hcase, hle⟩ := hn
      obtain ⟨c₁, i, hget, h₁, hcfg, hi, hused, hsector⟩ := bufGetBlock_spec h block
      -- the rest begins with the next sector, or there is no rest
      obtain ⟨c₂, hrest, h₂, hcfg₂⟩ : ∃ c₂,
          bufReadBlocks fuel c₁ ((block + 1) % 2 ^ 32) 0 (nbytes - n) =
            .ok (c₂, ringSlice flat ((512 * block + offset + n) % 2 ^ 41) (nbytes - n)) ∧
          Stands c₂ flat ∧ SameConfig c₁ c₂ := by
        rcases hcase with hlast | hfull
        · obtain ⟨f, rfl⟩ := Nat.exists_eq_succ_of_ne_zero (show fuel ≠ 0 by omega)
          rw [hlast, Nat.sub_self, bufReadBlocks_zero]
          exact ⟨c₁, rfl, h₁, .refl c₁⟩
        · rw [show (512 * block + offset + n) % 2 ^ 41 = 512 * ((block + 1) % 2 ^ 32) + 0 by omega]
          exact ih c₁ _ 0 (nbytes - n) h₁ (by omega) (by omega) (by omega)
      refine ⟨c₂, ?_, h₂, hcfg.trans hcfg₂⟩
      rw [hget]
      show (bufReadBlocks fuel c₁ ((block + 1) % 2 ^ 32) 0 (nbytes - n) >>= fun r =>
        .ok (r.1, getBytes (c₁.blkTable i).mem offset n ++ r.2)) = _
      rw [hrest, h₁.getBytes_eq hi hused hsector hfit]
      show Except.ok (c₂, _) = _
      rw [← ringSlice_eq flat (by omega), ringSlice_append, show n + (nbytes - n) = nbytes by omega]

/-- `BufReadBlocks` reads the array. -/
theorem bufReadBlocks_spec (h : Stands c flat) (block : Nat) {offset nbytes : Nat}
    (hoff : offset < 512)
    (hend : 512 * block + offset + nbytes ≤ 512 * 2 ^ 32) :
    ∃ c', bufReadBlocks (nbytes + 1) c block offset nbytes =
        .ok (c', slice flat (512 * block + offset) nbytes) ∧
      Stands c' flat ∧ SameConfig c c' := by
  by_cases h0 : nbytes = 0
  · rw [h0, bufReadBlocks_zero]
    exact ⟨c, rfl, h, .refl c⟩
  · rw [← ringSlice_eq flat (show 512 * block + offset + nbytes ≤ 2 ^ 41 by omega)]
    exact bufReadBlocks_ring (nbytes + 1) c block offset nbytes h (by omega) hoff
      (Nat.lt_succ_self _)

/-- One round of `BufWriteBlocks`. -/
theorem bufWriteBlocks_round (h : Stands c flat) {mode : Mode}
    (hmode : mode.immed = true → c.writethruCritical = true) (addr : Addr) (data : List UInt8)
    (block : Nat) {offset nbytes n : Nat} (h0 : nbytes ≠ 0) (hn : min nbytes (512 - offset) = n)
    (hfill : ∀ mem, fillBuffer mem offset addr n = .ok (stBytes mem offset data))
    (hfit : offset + data.length ≤ 512) (fuel : Nat) :
    ∃ c₁, Stands c₁ (patch flat (512 * block + offset) data) ∧ SameConfig c c₁ ∧
      bufWriteBlocks mode (fuel + 1) c addr block offset nbytes =
        bufWriteBlocks mode fuel c₁ (addr.add n) ((block + 1) % 2 ^ 32) 0 (nbytes - n) := by
  obtain ⟨c₁, i, hget, h₁, hcfg, hi, hused, hsector⟩ := bufGetBlock_spec h block
  have hput := bufPutBlock_spec h₁ hi hused hsector (stBytes (c₁.blkTable i).mem offset data) mode
    fun him => hcfg.writethru.trans (hmode him)
  rw [h₁.withSector_stBytes hi hused hsector hfit] at hput
  refine ⟨_, hput.1, hcfg.trans hput.2, ?_⟩
  rw [bufWriteBlocks, if_neg h0, h.block_size, hn]
  simp only
  rw [hget]
  show (fillBuffer (c₁.blkTable i).mem offset addr n >>= _) = _
  rw [hfill]
  rfl

/-- Nothing left to write. -/
theorem bufWriteBlocks_zero (fuel : Nat) (c : Cache) (addr : Addr) (block offset : Nat)
    (mode : Mode) : bufWriteBlocks mode (fuel + 1) c addr block offset 0 = .ok c := by
  rw [bufWriteBlocks, if_pos rfl]

/-- `BufWriteBlocks` with bytes to copy writes them to the array, around the end of the
sector numbers. -/
theorem bufWriteBlocks_ring (mode : Mode) (fuel : Nat) : ∀ (c : Cache) (flat : Nat → UInt8)
    (l : List UInt8) (block offset : Nat), Stands c flat →
    (mode.immed = true → c.writethruCritical = true) → block < 2 ^ 32 → offset < 512 →
    l.length < 2 ^ 32 → l.length < fuel →
    ∃ c', bufWriteBlocks mode fuel c (.bytes l) block offset l.length = .ok c' ∧
      Stands c' (ringPatch flat (512 * block + offset) l) ∧ SameConfig c c' := by
  induction fuel with
  | zero => exact fun _ _ _ _ _ _ _ _ _ _ h => absurd h (Nat.not_lt_zero _)
  | succ fuel ih =>
    intro c flat l block offset h hmode hblock hoff hlt hfuel
    by_cases h0 : l.length = 0
    · rw [List.length_eq_zero_iff.mp h0, List.length_nil, bufWriteBlocks_zero,
        ringPatch_eq _ (by rw [List.length_nil]; omega), patch_nil]
      exact ⟨c, rfl, h, .refl c⟩
    · -- one round writes up to the end of the sector
      have hn : offset + min l.length (512 - offset) ≤ 512 ∧
          (min l.length (512 - offset) = l.length ∨ offset + min l.length (512 - offset) = 512) ∧
          0 < min l.length (512 - offset) ∧ min l.length (512 - offset) ≤ l.length := by omega
      generalize hm : min l.length (512 - offset) = n at hn
      obtain ⟨hfit, hcase, hpos, hle⟩ := hn
      have htake : (l.take n).length = n := by
        rw [List.length_take]
        omega
      have hrest : (l.drop n).length = l.length - n := List.length_drop
      obtain ⟨c₁, h₁, hcfg, hround⟩ := bufWriteBlocks_round h hmode (.bytes l) (l.take n) block h0 hm
        (fun _ => rfl) (by rw [htake]; exact hfit) fuel
      rw [hround, Addr.add, ← hrest]
      rw [← ringPatch_eq flat (by omega)] at h₁
      have happend := ringPatch_append flat (show 512 * block + offset < 2 ^ 41 by omega)
        (show (l.take n).length + (l.drop n).length ≤ 2 ^ 41 by omega)
      rw [List.take_append_drop, htake] at happend
      rw [← happend]
      rcases hcase with hlast | hfull
      · -- the bytes end in this sector
        have hnil : l.drop n = [] := List.length_eq_zero_iff.mp (by omega)
        obtain ⟨f, rfl⟩ := Nat.exists_eq_succ_of_ne_zero (show fuel ≠ 0 by omega)
        rw [hnil, List.length_nil, bufWriteBlocks_zero,
          ringPatch_eq _ (by rw [List.length_nil]; omega), patch_nil]
        exact ⟨c₁, rfl, h₁, hcfg⟩
      · -- the next sector, which is the first one behind the last number
        rw [show (512 * block + offset + n) % 2 ^ 41 = 512 * ((block + 1) % 2 ^ 32) + 0 by omega]
        obtain ⟨c₂, hrun, h₂, hcfg₂⟩ := ih c₁ _ (l.drop n) ((block + 1) % 2 ^ 32) 0 h₁
          (fun him => hcfg.writethru.trans (hmode him)) (by omega) (by omega) (by omega) (by omega)
        exact ⟨c₂, hrun, h₂, hcfg.trans hcfg₂⟩

/-- `BufWriteBlocks` with bytes to copy writes them to the array. -/
theorem bufWriteBlocks_bytes (h : Stands c flat) {mode : Mode}
    (hmode : mode.immed = true → c.writethruCritical = true) {l : List UInt8} (block : Nat)
    {offset : Nat} (hoff : offset < 512) (hlen : l.length < 2 ^ 32)
    (hend : 512 * block + offset + l.length ≤ 512 * 2 ^ 32) :
    ∃ c', bufWriteBlocks mode (l.length + 1) c (.bytes l) block offset l.length = .ok c' ∧
      Stands c' (patch flat (512 * block + offset) l) ∧ SameConfig c c' := by
  by_cases h0 : l.length = 0
  · rw [List.length_eq_zero_iff.mp h0, List.length_nil, bufWriteBlocks_zero, patch_nil]
    exact ⟨c, rfl, h, .refl c⟩
  · rw [← ringPatch_eq flat (show 512 * block + offset + l.length ≤ 2 ^ 41 by omega)]
    exact bufWriteBlocks_ring mode (l.length + 1) c flat l block offset h hmode (by omega) hoff hlen
      (Nat.lt_succ_self _)

/-- `BufWriteBlocks` with a null pointer writes zeros, as long as they stay within a sector. -/
theorem bufWriteBlocks_null (h : Stands c flat) {mode : Mode}
    (hmode : mode.immed = true → c.writethruCritical = true) (block : Nat) {offset nbytes : Nat}
    (hfit : offset + nbytes ≤ 512) :
    ∃ c', bufWriteBlocks mode (nbytes + 1) c .null block offset nbytes = .ok c' ∧
      Stands c' (patch flat (512 * block + offset) (List.replicate nbytes 0)) ∧ SameConfig c c' := by
  by_cases h0 : nbytes = 0
  · rw [h0, bufWriteBlocks_zero, List.replicate_zero, patch_nil]
    exact ⟨c, rfl, h, .refl c⟩
  · obtain ⟨m, rfl⟩ := Nat.exists_eq_succ_of_ne_zero h0
    obtain ⟨c₁, h₁, hcfg, hround⟩ := bufWriteBlocks_round h hmode .null (List.replicate m.succ 0)
      block h0 (show min m.succ (512 - offset) = m.succ by omega) (fun _ => rfl)
      (by rw [List.length_replicate]; exact hfit) m.succ
    rw [hround, Nat.sub_self, bufWriteBlocks_zero]
    exact ⟨c₁, rfl, h₁, hcfg⟩

/-- Past the end of the first sector it copies from a pointer that is not one. -/
theorem bufWriteBlocks_null_past (h : Stands c flat) {mode : Mode}
    (hmode : mode.immed = true → c.writethruCritical = true) {block offset nbytes : Nat}
    (hoff : offset < 512) (hpast : 512 < offset + nbytes) :
    bufWriteBlocks mode (nbytes + 1) c .null block offset nbytes = .error .wildPointer := by
  obtain ⟨m, rfl⟩ := Nat.exists_eq_succ_of_ne_zero (show nbytes ≠ 0 by omega)
  obtain ⟨c₁, h₁, -, hround⟩ := bufWriteBlocks_round h hmode .null
    (List.replicate (512 - offset) 0) block
    (Nat.succ_ne_zero m) (show min m.succ (512 - offset) = 512 - offset by omega) (fun _ => rfl)
    (by rw [List.length_replicate]; omega) m.succ
  obtain ⟨c₂, i, hget, -⟩ := bufGetBlock_spec h₁ ((block + 1) % 2 ^ 32)
  rw [hround, Addr.add, if_neg (by omega), bufWriteBlocks, if_neg (by omega), hget]
  rfl

end Ranges

/-! ## Runs -/

/-- A request to the cached device; `data` is null to write zeros. Offset and
sector are as the callers pass them. -/
inductive Request (partitionStart : Nat) where
  | read (sector offset nbytes : Nat) (hoff : offset < 512) (hn : nbytes < 2 ^ 32)
      (hs : sector + partitionStart < 2 ^ 31)
  | write (data : List UInt8) (sector offset : Nat) (hoff : offset < 512)
      (hn : data.length < 2 ^ 32) (hs : sector + partitionStart < 2 ^ 31)
  | zero (sector offset nbytes : Nat) (hoff : offset < 512) (hn : nbytes < 2 ^ 32)
      (hs : sector + partitionStart < 2 ^ 31)
  | sync

variable {partitionStart : Nat}

/-- A request on the cache: the new state and the bytes read. -/
def step (c : Cache) : Request partitionStart → Except Fault (Cache × List UInt8)
  | .read sector offset nbytes .. => readSector partitionStart c sector offset nbytes
  | .write data sector offset .. =>
    (writeSector partitionStart c (.bytes data) sector offset data.length).map fun c => (c, [])
  | .zero sector offset nbytes .. =>
    (writeSector partitionStart c .null sector offset nbytes).map fun c => (c, [])
  | .sync => .ok (syncCache c, [])

/-- A request on a flat array of bytes. -/
def flatStep (flat : Nat → UInt8) : Request partitionStart → (Nat → UInt8) × List UInt8
  | .read sector offset nbytes .. =>
    (flat, slice flat (512 * (sector + partitionStart) + offset) nbytes)
  | .write data sector offset .. =>
    (patch flat (512 * (sector + partitionStart) + offset) data, [])
  | .zero sector offset nbytes .. =>
    (patch flat (512 * (sector + partitionStart) + offset) (List.replicate nbytes 0), [])
  | .sync => (flat, [])

/-- Zeros are written within one sector. -/
def Fits : Request partitionStart → Prop
  | .zero _ offset nbytes .. => offset + nbytes ≤ 512
  | _ => True

/-- A run that does to the cache what it does to the array, the lists in order throughout. -/
def RunOk : Cache → (Nat → UInt8) → List (Request partitionStart) → Prop
  | _, _, [] => True
  | c, flat, req :: reqs => ∃ c', step c req = .ok (c', (flatStep flat req).2) ∧
      Rep c' (flatStep flat req).1 ∧ RunOk c' (flatStep flat req).1 reqs

/-- A request that fits is one on the array. -/
theorem step_spec {c : Cache} {flat : Nat → UInt8} (h : Rep c flat)
    {req : Request partitionStart} (hfits : Fits req) :
    ∃ c', step c req = .ok (c', (flatStep flat req).2) ∧ Rep c' (flatStep flat req).1 := by
  -- the mode of `writeSector` is 0
  have hmode : (⟨false, false⟩ : Mode).immed = true → c.writethruCritical = true :=
    fun him => nomatch him
  cases req with
  | read sector offset nbytes hoff hn hs =>
    obtain ⟨c', hrun, h', hcfg⟩ := bufReadBlocks_spec h.toStands (sector + partitionStart) hoff
      (show _ + nbytes ≤ _ by omega)
    exact ⟨c', hrun, h'.rep (hcfg.delay.trans h.writeback)⟩
  | write data sector offset hoff hn hs =>
    obtain ⟨c', hrun, h', hcfg⟩ := bufWriteBlocks_bytes h.toStands hmode (sector + partitionStart)
      hoff hn (by omega)
    refine ⟨c', ?_, h'.rep (hcfg.delay.trans h.writeback)⟩
    rw [step, writeSector, hrun]
    rfl
  | zero sector offset nbytes hoff hn hs =>
    obtain ⟨c', hrun, h', hcfg⟩ := bufWriteBlocks_null h.toStands hmode (sector + partitionStart) hfits
    refine ⟨c', ?_, h'.rep (hcfg.delay.trans h.writeback)⟩
    rw [step, writeSector, hrun]
    rfl
  | sync =>
    obtain ⟨h', hcfg⟩ := syncCache_stands h.toStands
    exact ⟨syncCache c, rfl, h'.rep (hcfg.delay.trans h.writeback)⟩

/-- One that does not fit ends the handler. -/
theorem step_fault {c : Cache} {flat : Nat → UInt8} (h : Rep c flat)
    {req : Request partitionStart} (hfits : ¬ Fits req) : step c req = .error .wildPointer := by
  have hmode : (⟨false, false⟩ : Mode).immed = true → c.writethruCritical = true :=
    fun him => nomatch him
  cases req with
  | zero sector offset nbytes hoff hn hs =>
    rw [step, writeSector, bufWriteBlocks_null_past h.toStands hmode hoff
      (by simpa [Fits] using hfits)]
    rfl
  | _ => exact absurd trivial hfits

theorem createCache_stands {dev : Nat → Buf} {bufferCnt delay : Nat} {writethru : Bool} {c : Cache}
    (hcreate : createCache dev bufferCnt 512 writethru delay = some c) :
    Stands c (fun a => dev (a / 512) (a % 512)) ∧ c.writethruCritical = writethru ∧
      c.writebackDelay = delay := by
  unfold createCache at hcreate
  split at hcreate
  · cases hcreate
  next hcnt =>
    cases hcreate
    refine ⟨?_, rfl, rfl⟩
    constructor
    case some_buffer =>
      show 0 < bufferCnt
      omega
    case free_nodup => exact List.nodup_range
    all_goals simp

theorem createCache_rep {dev : Nat → Buf} {bufferCnt : Nat} {writethru : Bool} {c : Cache}
    (hcreate : createCache dev bufferCnt 512 writethru 0 = some c) :
    Rep c fun a => dev (a / 512) (a % 512) := by
  obtain ⟨h, -, hdelay⟩ := createCache_stands hcreate
  exact h.rep hdelay

theorem run_iff (reqs : List (Request partitionStart)) : ∀ (c : Cache) (flat : Nat → UInt8),
    Rep c flat → (RunOk c flat reqs ↔ ∀ req ∈ reqs, Fits req) := by
  induction reqs with
  | nil => exact fun _ _ _ => iff_of_true trivial (by simp)
  | cons req reqs ih =>
    intro c flat h
    rw [List.forall_mem_cons]
    by_cases hfits : Fits req
    · obtain ⟨c', hstep, h'⟩ := step_spec h hfits
      constructor
      · rintro ⟨c'', -, hrep, hrest⟩
        exact ⟨hfits, (ih c'' _ hrep).mp hrest⟩
      · exact fun ⟨_, hrest⟩ => ⟨c', hstep, h', (ih c' _ h').mpr hrest⟩
    · refine iff_of_false ?_ fun ⟨hf, _⟩ => hfits hf
      rintro ⟨c', hstep, -⟩
      rw [step_fault h hfits] at hstep
      cases hstep

/-- On a cache as `CreateCache` makes it, a run of requests is a run on the flat
array of the device's bytes if and only if it writes no zeros over the end of a sector. -/
theorem cacheRun_ok_iff {dev : Nat → Buf} {bufferCnt : Nat} {writethru : Bool} {c : Cache}
    (hcreate : createCache dev bufferCnt 512 writethru 0 = some c)
    (reqs : List (Request partitionStart)) :
    RunOk c (fun a => dev (a / 512) (a % 512)) reqs ↔ ∀ req ∈ reqs, Fits req :=
  run_iff reqs c _ (createCache_rep hcreate)

theorem sector_pos : 0 < 512 := by decide

/-- A write over the end of a sector, a read of what was written, a sector of zeros. -/
def sampleRequests : List (Request 63) :=
  [.write [7, 8] 0 511 (by decide) (by decide) (by decide),
    .read 0 510 4 (by decide) (by decide) (by decide),
    .zero 1 0 512 sector_pos (by decide) (by decide), .sync]

/-- `cacheRun_ok_iff` at these requests, on a cache of one buffer and a device of ones. -/
theorem cacheRun_ok_iff_sample : ∃ c, createCache (fun _ _ => 1) 1 512 true 0 = some c ∧
    RunOk c (fun _ => 1) sampleRequests :=
  ⟨_, rfl, (cacheRun_ok_iff (show createCache (fun _ _ => 1) 1 512 true 0 = some _ from rfl)
    sampleRequests).mpr
    (by simp [sampleRequests, Fits])⟩

/-- Two zeros over the end of a sector. -/
def zeroPast : Request 63 := .zero 0 511 2 (by decide) (by decide) (by decide)

/-- Zeros over the end of a sector end the handler. -/
theorem zeroPast_fault : ∃ c, createCache (fun _ _ => 1) 1 512 true 0 = some c ∧
    ¬ RunOk c (fun _ => 1) [zeroPast] := by
  refine ⟨_, rfl, ?_⟩
  rintro ⟨c', hstep, -⟩
  have hrep := createCache_rep (show createCache (fun _ _ => 1) 1 512 true 0 = some _ from rfl)
  rw [step_fault hrep (by simp [zeroPast, Fits])] at hstep
  cases hstep

end Cheviot.Fatfs
