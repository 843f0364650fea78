import Cheviot.Fatfs.Fat

/-!
# The entries of a FAT32 volume

An entry has four bytes, so that the one of a cluster begins at four times its number.
`ReadFATEntry` looks there; `WriteFATEntry` writes at the number itself, and both take
the four reserved bits of an entry for a part of its value.

* `Fat32Entry` — what the two give for an entry where they fit together.
* `fat32Entry_iff` — they do for cluster 0 alone, with the reserved bits clear.
-/

namespace Cheviot.Fatfs

open Cheviot.Bytes

section Cache

variable {sb : FatSb} {c : Cache} {flat : Nat → UInt8} {cluster f : Nat}

/-- A round of `ReadFATEntry` on the cache, for FAT number `f`. -/
def ReadsCopy (sb : FatSb) (c : Cache) (cluster f r : Nat) : Prop :=
  ∃ c', (readFATCopy sb cluster f).run (cacheOp sb.partitionStart) c = .ok (c', r)

theorem ReadsCopy.of_stands (h : Stands c flat) (hl : FatLayout sb) (hf : f < sb.fatCnt)
    (hin : EntryInside sb cluster) : ReadsCopy sb c cluster f
      (sb.fatType.fromFat (entryAt sb.fatType (fatBytes sb flat f) cluster)) := by
  have hsim := run_cache_flat sb.partitionStart (readFATCopy sb cluster f) h
  rw [readFATCopy_run hl hf hin] at hsim
  obtain ⟨c', hrun, -⟩ := hsim
  exact ⟨c', hrun⟩

theorem ReadsCopy.unique {r r' : Nat} (h : ReadsCopy sb c cluster f r)
    (h' : ReadsCopy sb c cluster f r') : r = r' := by
  obtain ⟨c₁, hrun⟩ := h
  obtain ⟨c₂, hrun'⟩ := h'
  rw [hrun] at hrun'
  cases hrun'
  rfl

theorem ReadsEntry.unique {r r' : Option Nat} (h : ReadsEntry sb c cluster r)
    (h' : ReadsEntry sb c cluster r') : r = r' := by
  obtain ⟨c₁, hrun⟩ := h
  obtain ⟨c₂, hrun'⟩ := h'
  rw [hrun] at hrun'
  cases hrun'
  rfl

/-- `WriteFATEntry` on the cache. -/
theorem writeFATEntry_stands (h : Stands c flat) (hl : FatLayout sb) (hin : EntryInside sb cluster)
    (value : Nat) : ∃ c' flat',
      (writeFATEntry sb cluster value).run (cacheOp sb.partitionStart) c = .ok (c', some ()) ∧
      Stands c' flat' ∧ FatsWritten sb flat flat' cluster (sb.fatType.toFat value) := by
  obtain ⟨flat', hrun, hw⟩ := writeFATEntry_run hl hin value flat
  have hsim := run_cache_flat sb.partitionStart (writeFATEntry sb cluster value) h
  rw [hrun] at hsim
  obtain ⟨c', hrun', h'⟩ := hsim
  exact ⟨c', flat', hrun', h', hw⟩

/-- The reserved bits of an entry, in FAT number `f`. -/
def reservedBits (sb : FatSb) (flat : Nat → UInt8) (f cluster : Nat) : Nat :=
  entryAt .fat32 (fatBytes sb flat f) cluster / 2 ^ 28

/-- Reader and writer fit together at the entry of a cluster: it reads as its low 28 bits,
and a number written to it is read from it, with the other entries of every FAT and the
reserved bits as they were. -/
structure Fat32Entry (sb : FatSb) (c : Cache) (flat : Nat → UInt8) (cluster : Nat) : Prop where
  low_bits : ReadsEntry sb c cluster
    (some (FatType.fat32.fromFat (entryAt .fat32 (fatBytes sb flat 0) cluster % 2 ^ 28)))
  written : ∀ value, FatValue .fat32 value → ∃ c' flat',
    (writeFATEntry sb cluster value).run (cacheOp sb.partitionStart) c = .ok (c', some ()) ∧
    Stands c' flat' ∧ ReadsEntry sb c' cluster (some value) ∧
    (∀ f, f < sb.fatCnt → ∀ other, other ≠ cluster → EntryInside sb other →
      ∃ r, ReadsCopy sb c other f r ∧ ReadsCopy sb c' other f r) ∧
    ∀ f, f < sb.fatCnt → reservedBits sb flat' f cluster = reservedBits sb flat f cluster

end Cache

/-! ## The bytes -/

section Bytes

variable {b : Buf} {cluster value x : Nat}

theorem leBytes32_length (x : Nat) : (leBytes32 x).length = 4 := rfl

/-- An entry is below `2 ^ 24` when its last byte is zero. -/
theorem entryAt32_lt_iff : entryAt .fat32 b cluster < 2 ^ 24 ↔ (b (cluster * 4 + 3)).toNat = 0 := by
  have h0 := (b (cluster * 4)).toNat_lt
  have h1 := (b (cluster * 4 + 1)).toNat_lt
  have h2 := (b (cluster * 4 + 2)).toNat_lt
  simp only [entryAt, leWord32_getBytes]
  omega

/-- What is read for it keeps that. -/
theorem fromFat32_lt_iff : FatType.fat32.fromFat x < 2 ^ 24 ↔ x < 2 ^ 24 := by
  have hmarks := FatType.fat32.marks
  have hmin : FatType.fat32.eocMin = 0x0ffffff8 ∧ FatType.fat32.bad = 0x0ffffff7 := ⟨rfl, rfl⟩
  unfold FatType.fromFat
  by_cases heoc : FatType.fat32.eocMin ≤ x ∧ x ≤ FatType.fat32.eoc
  · rw [if_pos heoc]
    omega
  · rw [if_neg heoc]
    by_cases hbad : x = FatType.fat32.bad
    · rw [if_pos hbad]
      omega
    · rw [if_neg hbad]

theorem writeEntry32 (b : Buf) (cluster value : Nat) :
    writeEntry .fat32 b cluster value = stBytes b cluster (leBytes32 value) := rfl

/-- The entry that has the byte with the cluster's number ends within the bytes written. -/
theorem writeEntry32_last (b : Buf) (cluster value : Nat) :
    writeEntry .fat32 b cluster value (cluster / 4 * 4 + 3) =
      (leBytes32 value).getD (3 - cluster % 4) 0 := by
  have hlen := leBytes32_length value
  rw [writeEntry32, stBytes_apply (by omega) (by omega)]
  congr 1
  omega

/-- Freeing clears this byte. -/
theorem writeEntry32_free (b : Buf) (cluster : Nat) :
    entryAt .fat32 (writeEntry .fat32 b cluster (FatType.fat32.toFat clusterFree)) (cluster / 4) <
      2 ^ 24 := by
  rw [entryAt32_lt_iff, writeEntry32_last, FatType.toFat_free]
  have hi : 3 - cluster % 4 = 0 ∨ 3 - cluster % 4 = 1 ∨ 3 - cluster % 4 = 2 ∨
      3 - cluster % 4 = 3 := by omega
  rcases hi with hi | hi | hi | hi
  all_goals
    rw [hi]
    rfl

/-- The end of a chain sets it. -/
theorem writeEntry32_eoc (b : Buf) (cluster : Nat) :
    ¬ entryAt .fat32 (writeEntry .fat32 b cluster (FatType.fat32.toFat clusterEoc)) (cluster / 4) <
      2 ^ 24 := by
  rw [entryAt32_lt_iff, writeEntry32_last, FatType.toFat_eoc]
  have hi : 3 - cluster % 4 = 0 ∨ 3 - cluster % 4 = 1 ∨ 3 - cluster % 4 = 2 ∨
      3 - cluster % 4 = 3 := by omega
  rcases hi with hi | hi | hi | hi
  all_goals
    rw [hi]
    decide

/-- At cluster 0 the entry is written. -/
theorem entryAt32_writeEntry_zero (hvalue : value < 2 ^ 32) (b : Buf) :
    entryAt .fat32 (writeEntry .fat32 b 0 value) 0 = value := by
  have hbyte : ∀ i, i < 4 → writeEntry .fat32 b 0 value i = (leBytes32 value).getD i 0 := by
    intro i hi
    rw [writeEntry32, stBytes_apply (Nat.zero_le i) (by rw [leBytes32_length]; omega), Nat.sub_zero]
  simp only [entryAt, leWord32_getBytes]
  rw [hbyte _ (by decide), hbyte _ (by decide), hbyte _ (by decide), hbyte _ (by decide)]
  exact leWord32_bytes hvalue

/-- The others stay. -/
theorem entryAt32_writeEntry_zero_ne {other : Nat} (hne : other ≠ 0) (b : Buf) (value : Nat) :
    entryAt .fat32 (writeEntry .fat32 b 0 value) other = entryAt .fat32 b other := by
  have hbyte : ∀ i, 4 ≤ i → writeEntry .fat32 b 0 value i = b i := by
    intro i hi
    rw [writeEntry32, stBytes_apply_ne (.inr (by rw [leBytes32_length]; omega))]
  simp only [entryAt, leWord32_getBytes]
  rw [hbyte _ (by omega), hbyte _ (by omega), hbyte _ (by omega), hbyte _ (by omega)]

end Bytes

/-! ## Where they fit together -/

section Volume

variable {sb : FatSb} {c : Cache} {flat : Nat → UInt8} {cluster : Nat}

/-- At no cluster but the first: freeing an entry and ending a chain there make the same
entry of another cluster read in two ways. -/
theorem Fat32Entry.cluster_eq (h : Stands c flat) (hl : FatLayout sb) (ht : sb.fatType = .fat32)
    (hin : EntryInside sb cluster) (hok : Fat32Entry sb c flat cluster) : cluster = 0 := by
  by_contra hne
  have hother : EntryInside sb (cluster / 4) := by
    unfold EntryInside at hin ⊢
    rw [ht] at hin ⊢
    simp only [entryOffset] at hin ⊢
    omega
  -- what the other entry reads as afterwards is what it read as before
  have hread : ∀ value, FatValue .fat32 value → FatType.fat32.fromFat (entryAt .fat32
      (writeEntry .fat32 (fatBytes sb flat 0) cluster (FatType.fat32.toFat value)) (cluster / 4)) =
      FatType.fat32.fromFat (entryAt .fat32 (fatBytes sb flat 0) (cluster / 4)) := by
    intro value hv
    obtain ⟨c', -, hrun, -, -, hsame, -⟩ := hok.written value hv
    obtain ⟨c'', flat', hrun', h', hw⟩ := writeFATEntry_stands h hl hin value
    rw [hrun] at hrun'
    cases hrun'
    obtain ⟨r, hbefore, hafter⟩ := hsame 0 hl.fat_cnt (cluster / 4) (by omega) hother
    have hb := hbefore.unique (.of_stands h hl hl.fat_cnt hother)
    have ha := hafter.unique (.of_stands h' hl hl.fat_cnt hother)
    rw [hw.entryAt hl.fat_cnt hother, ht] at ha
    rw [ht] at hb
    exact ha.symm.trans hb
  have hfree := hread clusterFree (.inl rfl)
  have heoc := hread clusterEoc (.inr (.inr (.inr rfl)))
  have hlt := fromFat32_lt_iff.mpr (writeEntry32_free (fatBytes sb flat 0) cluster)
  rw [hfree, ← heoc] at hlt
  exact writeEntry32_eoc _ cluster (fromFat32_lt_iff.mp hlt)

/-- The value of a number has no reserved bits. -/
theorem toFat32_lt {value : Nat} (hv : FatValue .fat32 value) :
    FatType.fat32.toFat value < 2 ^ 28 :=
  Nat.lt_of_le_of_lt hv.toFat_le (by decide)

/-- The reserved bits of an entry that is written are cleared. -/
theorem reservedBits_written {flat' : Nat → UInt8} {value f : Nat} (ht : sb.fatType = .fat32)
    (hin : EntryInside sb 0) (hv : FatValue .fat32 value)
    (hw : FatsWritten sb flat flat' 0 (FatType.fat32.toFat value)) (hf : f < sb.fatCnt) :
    reservedBits sb flat' f 0 = 0 := by
  have hlt := toFat32_lt hv
  have hentry := hw.entryAt hf hin
  rw [ht, entryAt32_writeEntry_zero (by omega)] at hentry
  rw [reservedBits, hentry]
  exact Nat.div_eq_of_lt hlt

/-- `ReadFATEntry` and `WriteFATEntry` fit together at the entry of a cluster of a FAT32
volume exactly when that is cluster 0, and the reserved bits of its entry are clear in
every FAT. -/
theorem fat32Entry_iff (h : Stands c flat) (hl : FatLayout sb) (ht : sb.fatType = .fat32)
    (hin : EntryInside sb cluster) :
    Fat32Entry sb c flat cluster ↔
      cluster = 0 ∧ ∀ f, f < sb.fatCnt → reservedBits sb flat f 0 = 0 := by
  constructor
  · intro hok
    have hzero := hok.cluster_eq h hl ht hin
    subst hzero
    refine ⟨rfl, fun f hf => ?_⟩
    obtain ⟨c', flat₁, hrun, h₁, -, -, hreserved⟩ := hok.written clusterFree (.inl rfl)
    obtain ⟨c'', flat', hrun', h', hw⟩ := writeFATEntry_stands h hl hin clusterFree
    rw [hrun] at hrun'
    cases hrun'
    obtain rfl := h₁.unique h'
    rw [← hreserved f hf]
    rw [ht] at hw
    exact reservedBits_written ht hin (.inl rfl) hw hf
  · intro hcond
    obtain ⟨rfl, hclear⟩ := hcond
    constructor
    · have hread := ReadsEntry.of_stands h hl hin
      have hlow := hclear 0 hl.fat_cnt
      unfold reservedBits at hlow
      rw [Nat.mod_eq_of_lt (by omega)]
      rwa [ht] at hread
    · intro value hv
      obtain ⟨c', flat', hrun, h', hw⟩ := writeFATEntry_stands h hl hin value
      rw [ht] at hw
      have hlt := toFat32_lt hv
      refine ⟨c', flat', hrun, h', ?_, fun f hf other hne hin' => ⟨_, .of_stands h hl hf hin', ?_⟩,
        fun f hf => ?_⟩
      · have hread := ReadsEntry.of_stands h' hl hin
        rwa [hw.entryAt hl.fat_cnt hin, ht, entryAt32_writeEntry_zero (by omega),
          hv.fromFat_toFat] at hread
      · have hread := ReadsCopy.of_stands h' hl hf hin'
        rwa [hw.entryAt hf hin', ht, entryAt32_writeEntry_zero_ne hne, ← ht] at hread
      · rw [reservedBits_written ht hin hv hw hf, hclear f hf]

end Volume

/-- A volume with two FATs of a sector each. -/
def sampleFat32 : FatSb :=
  ⟨.fat32, 0, 1, 1, 2, 0, 0, 1, 2, 64⟩

theorem sampleFat32_layout : FatLayout sampleFat32 := by
  constructor <;> decide

/-- `fat32Entry_iff` at the first entry of an empty volume. -/
theorem fat32Entry_iff_sample : ∃ c, createCache (fun _ _ => 0) 1 512 true 5 = some c ∧
    Fat32Entry sampleFat32 c (fun _ => 0) 0 := by
  have hcreate : createCache (fun _ _ => 0) 1 512 true 5 = some _ := rfl
  have hin : EntryInside sampleFat32 0 := show 0 + 4 ≤ 512 by decide
  exact ⟨_, hcreate, (fat32Entry_iff (createCache_stands hcreate).1 sampleFat32_layout rfl hin).mpr
    ⟨rfl, fun _ _ => show entryAt .fat32 (fun _ => 0) 0 / 2 ^ 28 = 0 by decide⟩⟩

/-- The entry of cluster 5 is looked for at byte 20, and written at byte 5. -/
theorem not_fat32Entry : ∃ c, createCache (fun _ _ => 0) 1 512 true 5 = some c ∧
    ¬ Fat32Entry sampleFat32 c (fun _ => 0) 5 := by
  have hcreate : createCache (fun _ _ => 0) 1 512 true 5 = some _ := rfl
  have hin : EntryInside sampleFat32 5 := show 20 + 4 ≤ 512 by decide
  refine ⟨_, hcreate, fun hok => ?_⟩
  have hzero := hok.cluster_eq (createCache_stands hcreate).1 sampleFat32_layout rfl hin
  exact absurd hzero (by decide)

end Cheviot.Fatfs
