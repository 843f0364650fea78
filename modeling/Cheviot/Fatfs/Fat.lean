import Cheviot.Fatfs.Types

/-!
# The entries of a FAT: `ReadFATEntry`, `WriteFATEntry`

An entry is read from the first FAT and written to all of them. On a FAT12 volume
two entries share three bytes, so that writing one reads its 16-bit word first, from
each FAT for itself.

* `entryAt`, `writeEntry` — an entry in the bytes of a FAT, and a FAT with one written.
* `readFATEntry_run`, `writeFATEntry_run` — the two functions do this to the volume.
* `writeFATEntry_spec` — what is written to a FAT12 or FAT16 volume is read from it.
-/

namespace Cheviot.Fatfs

open Cheviot.Bytes

/-! ## The functions -/

section Functions

variable (sb : FatSb)

/-- The sector of the FAT number `f` with the byte at `fatOffset` of it. -/
def fatSector (f fatOffset : Nat) : Nat := sb.reservedSectorsCnt + fatOffset / 512 + f * sb.fatSz

/-- A round of the loop of `ReadFATEntry`. -/
def readFATCopy (cluster f : Nat) : FatM Nat :=
  match sb.fatType with
  | .fat12 => do
    let fatOffset := (cluster + cluster / 2) % 2 ^ 32
    let word ← FatM.readSector (fatSector sb f fatOffset) (sectorOffset fatOffset) 2
    let wordValue := leWord16 word
    let wordValue := if cluster % 2 = 1 then wordValue >>> 4 else wordValue &&& 0x0fff
    return FatType.fat12.fromFat wordValue
  | .fat16 => do
    let fatOffset := (cluster * 2) % 2 ^ 32
    let word ← FatM.readSector (fatSector sb f fatOffset) (sectorOffset fatOffset) 2
    return FatType.fat16.fromFat (leWord16 word)
  | .fat32 => do
    let fatOffset := (cluster * 4) % 2 ^ 32
    let long ← FatM.readSector (fatSector sb f fatOffset) (sectorOffset fatOffset) 4
    -- all 32 bits of it
    return FatType.fat32.fromFat (leWord32 long)

/-- `ReadFATEntry`: the first FAT can be read, if there is one. -/
def readFATEntry (cluster : Nat) : FatM (Option Nat) :=
  if sb.fatCnt = 0 then return none
  else do return some (← readFATCopy sb cluster 0)

/-- A round of the loop of `WriteFATEntry`, with `value` as the rounds before have left it. -/
def writeFATCopy (cluster f value : Nat) : FatM Unit :=
  match sb.fatType with
  | .fat12 => do
    let fatOffset := (cluster + cluster / 2) % 2 ^ 32
    let word ← FatM.readSector (fatSector sb f fatOffset) (sectorOffset fatOffset) 2
    let wordValue := leWord16 word
    let wordValue :=
      if cluster % 2 = 1 then (value <<< 4 &&& 0xfff0) ||| (wordValue &&& 0x000f)
      else (value &&& 0x0fff) ||| (wordValue &&& 0xf000)
    FatM.writeSector (.word16 wordValue) (fatSector sb f fatOffset) (sectorOffset fatOffset)
  | .fat16 => do
    let fatOffset := (cluster * 2) % 2 ^ 32
    FatM.writeSector (.word16 (value % 2 ^ 16)) (fatSector sb f fatOffset) (sectorOffset fatOffset)
  | .fat32 => do
    -- the cluster itself, not the bytes in front of its entry
    let fatOffset := cluster
    FatM.writeSector (.word32 value) (fatSector sb f fatOffset) (sectorOffset fatOffset)

/-- The loop of `WriteFATEntry`, for `n` more FATs from number `f` on. -/
def writeFATLoop (cluster : Nat) : Nat → Nat → Nat → FatM Unit
  | 0, _, _ => return ()
  | n + 1, f, value => do
    let value := sb.fatType.toFat value
    writeFATCopy sb cluster f value
    writeFATLoop cluster n (f + 1) value

/-- `WriteFATEntry`. -/
def writeFATEntry (cluster value : Nat) : FatM (Option Unit) := do
  writeFATLoop sb cluster sb.fatCnt 0 value
  return if sb.fatCnt = 0 then none else some ()

end Functions

theorem readFATCopy_meets (sb : FatSb) (cluster f : Nat) :
    (readFATCopy sb cluster f).Meets DiskOp.IsRead fun _ => True := by
  unfold readFATCopy
  cases sb.fatType with
  | fat12 => exact .bind (FatM.readSector_meets ..) fun _ _ => .pure trivial
  | fat16 => exact .bind (FatM.readSector_meets ..) fun _ _ => .pure trivial
  | fat32 => exact .bind (FatM.readSector_meets ..) fun _ _ => .pure trivial

/-- `ReadFATEntry` writes nothing. -/
theorem readFATEntry_meets (sb : FatSb) (cluster : Nat) :
    (readFATEntry sb cluster).Meets DiskOp.IsRead fun _ => True := by
  unfold readFATEntry
  split
  · exact .pure trivial
  · exact .bind (readFATCopy_meets ..) fun _ _ => .pure trivial

/-! ## Entries as bytes of a FAT -/

/-- Where in a FAT the entry of a cluster begins. -/
def entryOffset : FatType → Nat → Nat
  | .fat12, cluster => cluster + cluster / 2
  | .fat16, cluster => cluster * 2
  | .fat32, cluster => cluster * 4

/-- The bytes that are read for an entry. -/
def entryWidth : FatType → Nat
  | .fat12 | .fat16 => 2
  | .fat32 => 4

/-- The value in the entry of a cluster, in a FAT of the bytes `b`. -/
def entryAt (t : FatType) (b : Buf) (cluster : Nat) : Nat :=
  match t with
  | .fat12 =>
    let w := leWord16 (getBytes b (cluster + cluster / 2) 2)
    if cluster % 2 = 1 then w / 16 else w % 4096
  | .fat16 => leWord16 (getBytes b (cluster * 2) 2)
  | .fat32 => leWord32 (getBytes b (cluster * 4) 4)

/-- Where in a FAT `WriteFATEntry` writes. -/
def writeOffset : FatType → Nat → Nat
  | .fat12, cluster => cluster + cluster / 2
  | .fat16, cluster => cluster * 2
  | .fat32, cluster => cluster

/-- The word `WriteFATEntry` writes for a value, in a FAT of the bytes `b`. -/
def entryWord (t : FatType) (b : Buf) (cluster value : Nat) : Nat :=
  match t with
  | .fat12 =>
    let w := leWord16 (getBytes b (cluster + cluster / 2) 2)
    if cluster % 2 = 1 then value % 4096 * 16 + w % 16 else value % 4096 + w / 4096 * 4096
  | .fat16 => value % 2 ^ 16
  | .fat32 => value

/-- The bytes of that word. -/
def entryBytes (t : FatType) (x : Nat) : List UInt8 :=
  match t with
  | .fat12 | .fat16 => leBytes16 x
  | .fat32 => leBytes32 x

/-- A FAT of the bytes `b` after `WriteFATEntry`. -/
def writeEntry (t : FatType) (b : Buf) (cluster value : Nat) : Buf :=
  stBytes b (writeOffset t cluster) (entryBytes t (entryWord t b cluster value))

theorem entryBytes_length (t : FatType) (x : Nat) : (entryBytes t x).length = entryWidth t := by
  cases t <;> rfl

section Entries

variable {b : Buf} {cluster other value : Nat}

theorem leWord16_getBytes (b : Buf) (o : Nat) :
    leWord16 (getBytes b o 2) = (b o).toNat + 256 * (b (o + 1)).toNat := rfl

theorem leWord32_getBytes (b : Buf) (o : Nat) :
    leWord32 (getBytes b o 4) = (b o).toNat + 256 * (b (o + 1)).toNat +
      65536 * (b (o + 2)).toNat + 16777216 * (b (o + 3)).toNat := rfl

/-- The two bytes of a word that is stored, and the others. -/
theorem stBytes_leBytes16 (b : Buf) (o x : Nat) (hx : x < 2 ^ 16) :
    (stBytes b o (leBytes16 x) o).toNat = x % 256 ∧
    (stBytes b o (leBytes16 x) (o + 1)).toNat = x / 256 ∧
    ∀ i, i ≠ o → i ≠ o + 1 → stBytes b o (leBytes16 x) i = b i := by
  have hlen : (leBytes16 x).length = 2 := rfl
  refine ⟨?_, ?_, fun i h1 h2 => stBytes_apply_ne (by omega)⟩
  · rw [stBytes_apply (Nat.le_refl o) (by omega), Nat.sub_self]
    exact UInt8.toNat_ofNat' ..
  · rw [stBytes_apply (by omega) (by omega), Nat.add_sub_cancel_left]
    refine (UInt8.toNat_ofNat' ..).trans (Nat.mod_eq_of_lt ?_)
    show x / 256 < 256
    omega

/-- The word of an entry has 16 bits. -/
theorem leWord16_lt (l : List UInt8) : leWord16 l < 2 ^ 16 := by
  have h0 := (l.getD 0 0).toNat_lt
  have h1 := (l.getD 1 0).toNat_lt
  unfold leWord16
  omega

theorem entryWord_lt (b : Buf) (cluster value : Nat) :
    entryWord .fat12 b cluster value < 2 ^ 16 ∧ entryWord .fat16 b cluster value < 2 ^ 16 := by
  have hw := leWord16_lt (getBytes b (cluster + cluster / 2) 2)
  refine ⟨?_, Nat.mod_lt _ (by decide)⟩
  simp only [entryWord]
  split <;> omega

/-- What is written to an entry of a FAT12 or FAT16 volume is read from it. -/
theorem entryAt_writeEntry_self {t : FatType} (ht : t ≠ .fat32) (hv : value ≤ t.eoc) (b : Buf)
    (cluster : Nat) : entryAt t (writeEntry t b cluster value) cluster = value := by
  obtain ⟨h12, h16⟩ := entryWord_lt b cluster value
  cases t with
  | fat12 =>
    obtain ⟨h0, h1, -⟩ := stBytes_leBytes16 b (cluster + cluster / 2) _ h12
    simp only [entryAt, writeEntry, writeOffset, entryBytes, leWord16_getBytes, h0, h1]
    have hv : value ≤ 4095 := hv
    have hw := leWord16_lt (getBytes b (cluster + cluster / 2) 2)
    simp only [entryWord]
    split <;> omega
  | fat16 =>
    obtain ⟨h0, h1, -⟩ := stBytes_leBytes16 b (cluster * 2) _ h16
    simp only [entryAt, writeEntry, writeOffset, entryBytes, leWord16_getBytes, h0, h1]
    have hv : value ≤ 65535 := hv
    simp only [entryWord]
    omega
  | fat32 => exact absurd rfl ht

/-- The other entries stay, also the one that shares a byte with it. -/
theorem entryAt_writeEntry_ne {t : FatType} (ht : t ≠ .fat32) (hne : other ≠ cluster) (b : Buf)
    (value : Nat) : entryAt t (writeEntry t b cluster value) other = entryAt t b other := by
  obtain ⟨h12, h16⟩ := entryWord_lt b cluster value
  cases t with
  | fat12 =>
    obtain ⟨h0, h1, hsame⟩ := stBytes_leBytes16 b (cluster + cluster / 2) _ h12
    simp only [entryAt, writeEntry, writeOffset, entryBytes, leWord16_getBytes]
    have hw := leWord16_getBytes b (cluster + cluster / 2)
    by_cases hnext : other = cluster + 1 ∧ cluster % 2 = 0
    · -- the entry after an even one begins in its second byte
      obtain ⟨rfl, heven⟩ := hnext
      rw [if_pos (by omega), if_pos (by omega),
        show cluster + 1 + (cluster + 1) / 2 = cluster + cluster / 2 + 1 by omega, h1,
        hsame _ (by omega) (by omega)]
      simp only [entryWord]
      rw [if_neg (by omega)]
      have hb0 := (b (cluster + cluster / 2)).toNat_lt
      have hb1 := (b (cluster + cluster / 2 + 1)).toNat_lt
      omega
    · by_cases hprev : cluster = other + 1 ∧ other % 2 = 0
      · -- the entry in front of an odd one ends in its first byte
        obtain ⟨rfl, heven⟩ := hprev
        rw [if_neg (by omega), if_neg (by omega),
          show other + other / 2 + 1 = other + 1 + (other + 1) / 2 by omega, h0,
          hsame _ (by omega) (by omega)]
        simp only [entryWord]
        rw [if_pos (by omega)]
        have hb0 := (b (other + 1 + (other + 1) / 2)).toNat_lt
        omega
      · rw [hsame _ (by omega) (by omega), hsame _ (by omega) (by omega)]
  | fat16 =>
    obtain ⟨-, -, hsame⟩ := stBytes_leBytes16 b (cluster * 2) _ h16
    simp only [entryAt, writeEntry, writeOffset, entryBytes, leWord16_getBytes]
    rw [hsame _ (by omega) (by omega), hsame _ (by omega) (by omega)]
  | fat32 => exact absurd rfl ht

theorem entryAt_congr {t : FatType} {b' : Buf} {n : Nat}
    (hin : entryOffset t cluster + entryWidth t ≤ n) (h : ∀ k, k < n → b' k = b k) :
    entryAt t b' cluster = entryAt t b cluster := by
  cases t with
  | fat12 =>
    simp only [entryOffset, entryWidth] at hin
    simp only [entryAt, leWord16_getBytes]
    rw [h _ (by omega), h _ (by omega)]
  | fat16 =>
    simp only [entryOffset, entryWidth] at hin
    simp only [entryAt, leWord16_getBytes]
    rw [h _ (by omega), h _ (by omega)]
  | fat32 =>
    simp only [entryOffset, entryWidth] at hin
    simp only [entryAt, leWord32_getBytes]
    rw [h _ (by omega), h _ (by omega), h _ (by omega), h _ (by omega)]

/-- Writing an entry looks at no byte past the end of the FAT. -/
theorem writeEntry_congr {t : FatType} {b' : Buf} {n k : Nat}
    (hin : entryOffset t cluster + entryWidth t ≤ n) (h : ∀ k, k < n → b' k = b k) (hk : k < n) :
    writeEntry t b' cluster value k = writeEntry t b cluster value k := by
  have hword : entryWord t b' cluster value = entryWord t b cluster value := by
    cases t with
    | fat12 =>
      simp only [entryOffset, entryWidth] at hin
      simp only [entryWord, leWord16_getBytes]
      rw [h _ (by omega), h _ (by omega)]
    | fat16 => rfl
    | fat32 => rfl
  rw [writeEntry, writeEntry, hword]
  unfold stBytes
  rw [h k hk]

end Entries

/-! ## The FATs of a volume -/

/-- The FATs of the volume: at least one, in the sectors a 32-bit number counts. -/
structure FatLayout (sb : FatSb) : Prop where
  fat_cnt : 0 < sb.fatCnt
  sectors : sb.partitionStart + sb.reservedSectorsCnt + sb.fatCnt * sb.fatSz ≤ 2 ^ 32
  bytes : 512 * sb.fatSz ≤ 2 ^ 32

/-- The first byte of FAT number `f`. -/
def fatStart (sb : FatSb) (f : Nat) : Nat :=
  512 * (sb.partitionStart + sb.reservedSectorsCnt + f * sb.fatSz)

/-- The bytes of FAT number `f`. -/
def fatBytes (sb : FatSb) (flat : Nat → UInt8) (f : Nat) : Buf := fun k => flat (fatStart sb f + k)

/-- The entry of a cluster lies inside the FAT. -/
def EntryInside (sb : FatSb) (cluster : Nat) : Prop :=
  entryOffset sb.fatType cluster + entryWidth sb.fatType ≤ 512 * sb.fatSz

section Volume

variable {sb : FatSb} {flat flat' : Nat → UInt8} {cluster f value : Nat}

theorem FatLayout.fat_end (hl : FatLayout sb) (hf : f < sb.fatCnt) :
    fatStart sb f + 512 * sb.fatSz ≤ 2 ^ 41 := by
  have hmul : (f + 1) * sb.fatSz ≤ sb.fatCnt * sb.fatSz := Nat.mul_le_mul_right _ hf
  have hsec := hl.sectors
  rw [Nat.succ_mul] at hmul
  unfold fatStart
  omega

/-- The FATs follow each other. -/
theorem fatStart_le (sb : FatSb) {f g : Nat} (hfg : f < g) :
    fatStart sb f + 512 * sb.fatSz ≤ fatStart sb g := by
  have hmul : (f + 1) * sb.fatSz ≤ g * sb.fatSz := Nat.mul_le_mul_right _ hfg
  rw [Nat.succ_mul] at hmul
  unfold fatStart
  omega

/-- A byte of a FAT, by the sector it is in. -/
theorem byteOf_fat (hl : FatLayout sb) (hf : f < sb.fatCnt) {o : Nat} (ho : o < 512 * sb.fatSz) :
    byteOf sb.partitionStart (fatSector sb f o) (sectorOffset o) = fatStart sb f + o := by
  have hmul : (f + 1) * sb.fatSz ≤ sb.fatCnt * sb.fatSz := Nat.mul_le_mul_right _ hf
  have hsec := hl.sectors
  rw [Nat.succ_mul] at hmul
  unfold byteOf blockOf fatSector fatStart sectorOffset
  rw [Nat.mod_eq_of_lt (by omega)]
  simp only
  omega

theorem ringSlice_fat (hl : FatLayout sb) (hf : f < sb.fatCnt) {o n : Nat}
    (ho : o + n ≤ 512 * sb.fatSz) :
    ringSlice flat (fatStart sb f + o) n = getBytes (fatBytes sb flat f) o n := by
  have hend := hl.fat_end hf
  rw [ringSlice_eq flat (by omega)]
  unfold slice getBytes fatBytes
  simp only [Nat.add_assoc]

theorem entryOffset_lt (hl : FatLayout sb) (hin : EntryInside sb cluster) :
    entryOffset sb.fatType cluster < 2 ^ 32 := by
  have hbytes := hl.bytes
  unfold EntryInside at hin
  have : 0 < entryWidth sb.fatType := by
    cases sb.fatType <;> decide
  omega

theorem and_fff (n : Nat) : n &&& 0x0fff = n % 4096 := Nat.and_two_pow_sub_one_eq_mod n 12

/-- A round of `ReadFATEntry` reads the entry of one FAT. -/
theorem readFATCopy_run (hl : FatLayout sb) (hf : f < sb.fatCnt) (hin : EntryInside sb cluster) :
    (readFATCopy sb cluster f).run (flatOp sb.partitionStart) flat =
      .ok (flat, sb.fatType.fromFat (entryAt sb.fatType (fatBytes sb flat f) cluster)) := by
  have hread : ∀ o n, 0 < n → o + n ≤ 512 * sb.fatSz →
      (FatM.readSector (fatSector sb f o) (sectorOffset o) n).run (flatOp sb.partitionStart) flat =
        .ok (flat, getBytes (fatBytes sb flat f) o n) := by
    intro o n hn ho
    rw [FatM.readSector, Prog.run_op, flatOp, byteOf_fat hl hf (by omega), ringSlice_fat hl hf ho]
  have hlt := entryOffset_lt hl hin
  unfold EntryInside at hin
  unfold readFATCopy
  cases ht : sb.fatType with
  | fat12 =>
    rw [ht] at hin hlt
    simp only [entryOffset, entryWidth] at hin hlt
    simp only
    rw [Nat.mod_eq_of_lt hlt, Prog.run_bind_ok _ (hread _ 2 (by decide) hin)]
    simp only [entryAt, and_fff, Nat.shiftRight_eq_div_pow]
    rfl
  | fat16 =>
    rw [ht] at hin hlt
    simp only [entryOffset, entryWidth] at hin hlt
    simp only
    rw [Nat.mod_eq_of_lt hlt, Prog.run_bind_ok _ (hread _ 2 (by decide) hin)]
    rfl
  | fat32 =>
    rw [ht] at hin hlt
    simp only [entryOffset, entryWidth] at hin hlt
    simp only
    rw [Nat.mod_eq_of_lt hlt, Prog.run_bind_ok _ (hread _ 4 (by decide) hin)]
    rfl

/-- `ReadFATEntry` reads the entry of the first FAT. -/
theorem readFATEntry_run (hl : FatLayout sb) (hin : EntryInside sb cluster) :
    (readFATEntry sb cluster).run (flatOp sb.partitionStart) flat =
      .ok (flat, some (sb.fatType.fromFat (entryAt sb.fatType (fatBytes sb flat 0) cluster))) := by
  rw [readFATEntry, if_neg (Nat.ne_of_gt hl.fat_cnt),
    Prog.run_bind_ok _ (readFATCopy_run hl hl.fat_cnt hin)]
  rfl

/-- The word a value is put into, without bit operations. -/
theorem word12_eq (cluster value : Nat) {w : Nat} (hw : w < 2 ^ 16) :
    (if cluster % 2 = 1 then (value <<< 4 &&& 0xfff0) ||| (w &&& 0x000f)
      else (value &&& 0x0fff) ||| (w &&& 0xf000)) =
      if cluster % 2 = 1 then value % 4096 * 16 + w % 16
      else value % 4096 + w / 4096 * 4096 := by
  by_cases hodd : cluster % 2 = 1
  · have hhi : value <<< 4 &&& 0xfff0 = value % 4096 * 2 ^ 4 := by
      have := and_mask (value <<< 4) 4 12
      rw [Nat.shiftLeft_eq, Nat.mul_div_cancel _ (by decide)] at this
      rw [Nat.shiftLeft_eq]
      exact this
    have hlo : w &&& 0x000f = w % 16 := Nat.and_two_pow_sub_one_eq_mod w 4
    have hor : value % 4096 * 2 ^ 4 ||| w % 16 = value % 4096 * 2 ^ 4 + w % 16 :=
      mul_or (Nat.mod_lt _ (by decide))
    rw [if_pos hodd, if_pos hodd, hhi, hlo]
    exact hor
  · have hhi : w &&& 0xf000 = w / 4096 * 2 ^ 12 := by
      have := and_mask w 12 4
      rw [Nat.mod_eq_of_lt (show w / 2 ^ 12 < 2 ^ 4 by omega)] at this
      exact this
    rw [if_neg hodd, if_neg hodd, hhi, and_fff, Nat.or_comm, mul_or (by omega)]
    omega

/-- The word written is that of the source. -/
theorem entryWord_eq (b : Buf) (cluster value : Nat) :
    (if cluster % 2 = 1 then
        (value <<< 4 &&& 0xfff0) ||| (leWord16 (getBytes b (cluster + cluster / 2) 2) &&& 0x000f)
      else (value &&& 0x0fff) ||| (leWord16 (getBytes b (cluster + cluster / 2) 2) &&& 0xf000)) =
      entryWord .fat12 b cluster value :=
  word12_eq cluster value (leWord16_lt _)

/-- A round of `WriteFATEntry` writes one FAT. -/
theorem writeFATCopy_run (hl : FatLayout sb) (hf : f < sb.fatCnt) (hin : EntryInside sb cluster)
    (value : Nat) :
    (writeFATCopy sb cluster f value).run (flatOp sb.partitionStart) flat =
      .ok (patch flat (fatStart sb f + writeOffset sb.fatType cluster) (entryBytes sb.fatType
        (entryWord sb.fatType (fatBytes sb flat f) cluster value)), ()) := by
  have hlt := entryOffset_lt hl hin
  have hend := hl.fat_end hf
  have hwrite : ∀ o (data : Chunk), 0 < data.bytes.length → o + data.bytes.length ≤ 512 * sb.fatSz →
      (FatM.writeSector data (fatSector sb f o) (sectorOffset o)).run (flatOp sb.partitionStart) flat =
        .ok (patch flat (fatStart sb f + o) data.bytes, ()) := by
    intro o data hn ho
    rw [FatM.writeSector, Prog.run_op, flatOp, byteOf_fat hl hf (by omega),
      ringPatch_eq _ (by omega)]
  unfold EntryInside at hin
  unfold writeFATCopy
  cases ht : sb.fatType with
  -- the word shares a byte with the next entry, and is read first
  | fat12 =>
    rw [ht] at hin hlt
    simp only [entryOffset, entryWidth] at hin hlt
    have hread : (FatM.readSector (fatSector sb f (cluster + cluster / 2))
        (sectorOffset (cluster + cluster / 2)) 2).run (flatOp sb.partitionStart) flat =
        .ok (flat, getBytes (fatBytes sb flat f) (cluster + cluster / 2) 2) := by
      rw [FatM.readSector, Prog.run_op, flatOp, byteOf_fat hl hf (by omega),
        ringSlice_fat hl hf hin]
    simp only
    rw [Nat.mod_eq_of_lt hlt, Prog.run_bind_ok _ hread]
    simp only [entryWord_eq]
    exact hwrite _ (.word16 _) (show 0 < 2 by decide) hin
  | fat16 =>
    rw [ht] at hin hlt
    simp only [entryOffset, entryWidth] at hin hlt
    simp only
    rw [Nat.mod_eq_of_lt hlt]
    exact hwrite _ (.word16 _) (show 0 < 2 by decide) hin
  | fat32 =>
    rw [ht] at hin
    simp only [entryOffset, entryWidth] at hin
    exact hwrite _ (.word32 _) (show 0 < 4 by decide) (show cluster + 4 ≤ _ by omega)

/-- The number of a value does not change it again. -/
theorem toFat_toFat (t : FatType) (value : Nat) : t.toFat (t.toFat value) = t.toFat value := by
  unfold FatType.toFat
  split
  · cases t <;> rfl
  · split
    · cases t <;> rfl
    · rfl

/-- What is written to each FAT, and that nothing else is. -/
structure FatsWritten (sb : FatSb) (flat flat' : Nat → UInt8) (cluster value : Nat) : Prop where
  inside : ∀ f, f < sb.fatCnt → ∀ k, k < 512 * sb.fatSz →
    fatBytes sb flat' f k = writeEntry sb.fatType (fatBytes sb flat f) cluster value k
  outside : ∀ a, (∀ f, f < sb.fatCnt → a < fatStart sb f ∨ fatStart sb f + 512 * sb.fatSz ≤ a) →
    flat' a = flat a

theorem writeOffset_inside (hin : EntryInside sb cluster) :
    writeOffset sb.fatType cluster + entryWidth sb.fatType ≤ 512 * sb.fatSz := by
  unfold EntryInside at hin
  cases ht : sb.fatType with
  | fat32 =>
    rw [ht] at hin
    simp only [entryOffset, writeOffset] at hin ⊢
    omega
  | _ =>
    rw [ht] at hin
    exact hin

/-- The loop of `WriteFATEntry` writes the FATs that are left, each for itself. -/
theorem writeFATLoop_run (hl : FatLayout sb) (hin : EntryInside sb cluster) (n : Nat) :
    ∀ f value flat, f + n = sb.fatCnt →
      ∃ flat', (writeFATLoop sb cluster n f value).run (flatOp sb.partitionStart) flat =
          .ok (flat', ()) ∧
        (∀ g, f ≤ g → g < sb.fatCnt → ∀ k, k < 512 * sb.fatSz → fatBytes sb flat' g k =
          writeEntry sb.fatType (fatBytes sb flat g) cluster (sb.fatType.toFat value) k) ∧
        ∀ a, (∀ g, f ≤ g → g < sb.fatCnt →
          a < fatStart sb g ∨ fatStart sb g + 512 * sb.fatSz ≤ a) → flat' a = flat a := by
  have hoff := writeOffset_inside hin
  induction n with
  | zero =>
    intro f value flat hn
    exact ⟨flat, rfl, fun g h1 h2 => by omega, fun _ _ => rfl⟩
  | succ n ih =>
    intro f value flat hn
    have hf : f < sb.fatCnt := by omega
    obtain ⟨flat', hrun, hfats, hrest⟩ := ih (f + 1) (sb.fatType.toFat value)
      (patch flat (fatStart sb f + writeOffset sb.fatType cluster) (entryBytes sb.fatType
        (entryWord sb.fatType (fatBytes sb flat f) cluster (sb.fatType.toFat value)))) (by omega)
    -- the round changes no byte but those of its entry
    have hround : ∀ a, a < fatStart sb f ∨ fatStart sb f + 512 * sb.fatSz ≤ a →
        patch flat (fatStart sb f + writeOffset sb.fatType cluster) (entryBytes sb.fatType
          (entryWord sb.fatType (fatBytes sb flat f) cluster (sb.fatType.toFat value))) a = flat a := by
      intro a ha
      rw [patch, entryBytes_length, if_neg (by omega)]
    refine ⟨flat', ?_, fun g hg hlt k hk => ?_, fun a ha => ?_⟩
    · rw [writeFATLoop, Prog.run_bind_ok _ (writeFATCopy_run hl hf hin _)]
      exact hrun
    · -- the FAT of this round, which no later round writes to, or one of the later rounds
      by_cases hgf : g = f
      · subst hgf
        rw [fatBytes, hrest (fatStart sb g + k) fun j hj _ => by
          have := fatStart_le sb (show g < j by omega)
          omega]
        unfold patch writeEntry stBytes
        simp only [entryBytes_length]
        by_cases hk' : writeOffset sb.fatType cluster ≤ k ∧
            k < writeOffset sb.fatType cluster + entryWidth sb.fatType
        · rw [if_pos (by omega), if_pos hk', Nat.add_sub_add_left]
        · rw [if_neg (by omega), if_neg hk']
          rfl
      · rw [hfats g (by omega) hlt k hk, toFat_toFat]
        have hview : ∀ o, o < 512 * sb.fatSz → fatBytes sb (patch flat
            (fatStart sb f + writeOffset sb.fatType cluster) (entryBytes sb.fatType
              (entryWord sb.fatType (fatBytes sb flat f) cluster (sb.fatType.toFat value)))) g o =
            fatBytes sb flat g o := by
          intro o ho
          have := fatStart_le sb (show f < g by omega)
          exact hround _ (.inr (by omega))
        exact writeEntry_congr hin hview hk
    · rw [hrest a fun g hg hlt => ha g (by omega) hlt]
      exact hround a (ha f (Nat.le_refl f) hf)

/-- `WriteFATEntry` writes every FAT, each for itself. -/
theorem writeFATEntry_run (hl : FatLayout sb) (hin : EntryInside sb cluster) (value : Nat)
    (flat : Nat → UInt8) :
    ∃ flat', (writeFATEntry sb cluster value).run (flatOp sb.partitionStart) flat =
        .ok (flat', some ()) ∧ FatsWritten sb flat flat' cluster (sb.fatType.toFat value) := by
  obtain ⟨flat', hrun, hfats, hrest⟩ := writeFATLoop_run hl hin sb.fatCnt 0 value flat
    (Nat.zero_add _)
  refine ⟨flat', ?_, fun f hf => hfats f (Nat.zero_le f) hf, fun a ha => hrest a fun g _ => ha g⟩
  rw [writeFATEntry, Prog.run_bind_ok _ hrun, if_neg (Nat.ne_of_gt hl.fat_cnt)]
  rfl

/-- The entries of a FAT that has been written. -/
theorem FatsWritten.entryAt (h : FatsWritten sb flat flat' cluster value) (hf : f < sb.fatCnt)
    {other : Nat} (hin : EntryInside sb other) :
    entryAt sb.fatType (fatBytes sb flat' f) other =
      entryAt sb.fatType (writeEntry sb.fatType (fatBytes sb flat f) cluster value) other :=
  entryAt_congr hin (h.inside f hf)

/-! ## On the block cache -/

/-- `ReadFATEntry` on the cache. -/
def ReadsEntry (sb : FatSb) (c : Cache) (cluster : Nat) (r : Option Nat) : Prop :=
  ∃ c', (readFATEntry sb cluster).run (cacheOp sb.partitionStart) c = .ok (c', r)

/-- The FATs are copies of the first one. -/
def FatsEqual (sb : FatSb) (flat : Nat → UInt8) : Prop :=
  ∀ f, f < sb.fatCnt → ∀ k, k < 512 * sb.fatSz → fatBytes sb flat f k = fatBytes sb flat 0 k

/-- A byte of some FAT. -/
def InFats (sb : FatSb) (a : Nat) : Prop :=
  ∃ f, f < sb.fatCnt ∧ fatStart sb f ≤ a ∧ a < fatStart sb f + 512 * sb.fatSz

/-- A number an entry can have: free, a cluster, bad, or the end of a chain. -/
def FatValue (t : FatType) (value : Nat) : Prop :=
  value = clusterFree ∨ (clusterAllocMin ≤ value ∧ value ≤ t.allocMax) ∨ value = clusterBad ∨
    value = clusterEoc

/-- The marks of a type, beside those the handler has for all of them. -/
theorem FatType.marks (t : FatType) : t.allocMax < t.bad ∧ t.bad < t.eocMin ∧ t.eocMin ≤ t.eoc ∧
    t.bad ≤ clusterBad ∧ t.eoc ≤ clusterEoc ∧ clusterFree = 0 ∧ clusterBad = 0x0ffffff7 ∧
    clusterEoc = 0x0fffffff := by
  cases t <;> decide

theorem FatType.toFat_eoc (t : FatType) : t.toFat clusterEoc = t.eoc := if_pos rfl

theorem FatType.toFat_bad (t : FatType) : t.toFat clusterBad = t.bad := by
  rw [toFat, if_neg (by decide), if_pos rfl]

/-- The other numbers stand for themselves. -/
theorem FatType.toFat_of_le {t : FatType} (h : value ≤ t.allocMax) : t.toFat value = value := by
  have hmarks := t.marks
  rw [toFat, if_neg (by omega), if_neg (by omega)]

theorem FatType.toFat_free (t : FatType) : t.toFat clusterFree = clusterFree :=
  toFat_of_le (show 0 ≤ t.allocMax from Nat.zero_le _)

theorem FatValue.toFat_le {t : FatType} (h : FatValue t value) : t.toFat value ≤ t.eoc := by
  have hmarks := t.marks
  rcases h with rfl | ⟨hmin, hle⟩ | rfl | rfl
  · rw [FatType.toFat_free]
    exact Nat.zero_le _
  · rw [FatType.toFat_of_le hle]
    omega
  · rw [FatType.toFat_bad]
    omega
  · exact Nat.le_of_eq t.toFat_eoc

/-- An entry gives the number that was put into it. -/
theorem FatValue.fromFat_toFat {t : FatType} (h : FatValue t value) :
    t.fromFat (t.toFat value) = value := by
  have hmarks := t.marks
  unfold FatType.fromFat
  rcases h with rfl | ⟨hmin, hle⟩ | rfl | rfl
  · rw [FatType.toFat_free, if_neg (by omega), if_neg (by omega)]
  · rw [FatType.toFat_of_le hle, if_neg (by omega), if_neg (by omega)]
  · rw [FatType.toFat_bad, if_neg (by omega), if_pos rfl]
  · rw [FatType.toFat_eoc, if_pos (by omega)]

/-- What the entry of a cluster reads as, from the bytes the cache stands for. -/
theorem ReadsEntry.of_stands {c : Cache} (h : Stands c flat) (hl : FatLayout sb)
    (hin : EntryInside sb cluster) : ReadsEntry sb c cluster
      (some (sb.fatType.fromFat (entryAt sb.fatType (fatBytes sb flat 0) cluster))) := by
  have hsim := run_cache_flat sb.partitionStart (readFATEntry sb cluster) h
  rw [readFATEntry_run hl hin] at hsim
  obtain ⟨c', hrun, -⟩ := hsim
  exact ⟨c', hrun⟩

/-- `WriteFATEntry` on a FAT12 or FAT16 volume with equal FATs: the entry reads as the
value, all others as before, the FATs are still equal and no other byte has changed. -/
theorem writeFATEntry_spec (hl : FatLayout sb) (ht : sb.fatType ≠ .fat32) {c : Cache}
    (h : Stands c flat) (heq : FatsEqual sb flat) (hin : EntryInside sb cluster)
    (hv : FatValue sb.fatType value) :
    ∃ c' flat', (writeFATEntry sb cluster value).run (cacheOp sb.partitionStart) c =
        .ok (c', some ()) ∧ Stands c' flat' ∧
      ReadsEntry sb c' cluster (some value) ∧
      (∀ other, other ≠ cluster → EntryInside sb other →
        ∃ r, ReadsEntry sb c other r ∧ ReadsEntry sb c' other r) ∧
      FatsEqual sb flat' ∧ ∀ a, ¬ InFats sb a → flat' a = flat a := by
  obtain ⟨flat', hrun, hw⟩ := writeFATEntry_run hl hin value flat
  have hsim := run_cache_flat sb.partitionStart (writeFATEntry sb cluster value) h
  rw [hrun] at hsim
  obtain ⟨c', hrun', h'⟩ := hsim
  refine ⟨c', flat', hrun', h', ?_, fun other hne hin' => ⟨_, .of_stands h hl hin', ?_⟩,
    fun f hf k hk => ?_, fun a ha => hw.outside a fun f hf => ?_⟩
  · have hread := ReadsEntry.of_stands h' hl hin
    rwa [hw.entryAt hl.fat_cnt hin, entryAt_writeEntry_self ht hv.toFat_le,
      hv.fromFat_toFat] at hread
  · have hread := ReadsEntry.of_stands h' hl hin'
    rwa [hw.entryAt hl.fat_cnt hin', entryAt_writeEntry_ne ht hne] at hread
  · rw [hw.inside f hf k hk, hw.inside 0 hl.fat_cnt k hk]
    exact writeEntry_congr hin (heq f hf) hk
  · by_contra hnot
    exact ha ⟨f, hf, by omega, by omega⟩

end Volume

/-- A floppy with two FATs of a sector each. -/
def sampleFat12 : FatSb :=
  ⟨.fat12, 0, 1, 1, 2, 16, 1, 0, 0, 64⟩

theorem sampleFat12_layout : FatLayout sampleFat12 := by
  constructor <;> decide

/-- A volume of 4978 clusters, a sector each, with one FAT of 20 sectors. -/
def sampleFat16 : FatSb :=
  ⟨.fat16, 1, 1, 1, 1, 16, 20, 0, 0, 5000⟩

theorem sampleFat16_layout : FatLayout sampleFat16 := by
  constructor <;> decide

/-- `writeFATEntry_spec` at an entry that shares bytes with two others, on a new cache. -/
theorem writeFATEntry_spec_sample : ∃ c c' flat',
    createCache (fun _ _ => 0) 1 512 true 5 = some c ∧
    (writeFATEntry sampleFat12 3 clusterEoc).run (cacheOp 0) c = .ok (c', some ()) ∧
    Stands c' flat' ∧ ReadsEntry sampleFat12 c' 3 (some clusterEoc) ∧
    (∀ other, other ≠ 3 → EntryInside sampleFat12 other →
      ∃ r, ReadsEntry sampleFat12 c other r ∧ ReadsEntry sampleFat12 c' other r) ∧
    FatsEqual sampleFat12 flat' ∧ ∀ a, ¬ InFats sampleFat12 a → flat' a = 0 := by
  have hcreate : createCache (fun _ _ => 0) 1 512 true 5 = some _ := rfl
  have hin : EntryInside sampleFat12 3 := show 4 + 2 ≤ 512 by decide
  obtain ⟨c', flat', h⟩ := writeFATEntry_spec sampleFat12_layout
    (show FatType.fat12 ≠ .fat32 by decide) (createCache_stands hcreate).1 (fun _ _ _ _ => rfl) hin
    (.inr (.inr (.inr rfl)))
  exact ⟨_, c', flat', hcreate, h⟩

end Cheviot.Fatfs
