import Cheviot.Lib.Prog
import Cheviot.Fatfs.Sector

/-!
# Programs on the sectors of a volume

Everything above the block cache reaches the volume by `readSector` and
`writeSector`. The functions of the other files are programs over these two calls;
they run on the block cache, as the handler does, or on the flat array of bytes it
stands for.

* `run_cache_flat`, `yields_iff` — the two runs have the same result.

Mirroring notes:
- The partition start is added to a sector in 32 bits, so that a number out of
  range comes around.
- What is written at a time is no more than a sector, and begins within one.
-/

namespace Cheviot.Fatfs

open Cheviot.Bytes

/-- The bytes of one write. -/
structure Chunk where
  bytes : List UInt8
  le : bytes.length ≤ 512

/-- A call of `readSector` or `writeSector`; `clearSector` is `writeSector` with a
null pointer. -/
inductive DiskOp where
  | readSector (sector : Nat) (offset : Fin 512) (nbytes : Nat)
  | writeSector (data : Chunk) (sector : Nat) (offset : Fin 512)
  | clearSector (sector : Nat) (offset : Fin 512) (nbytes : Nat)

/-- A call that writes nothing. -/
def DiskOp.IsRead : DiskOp → Prop
  | readSector .. => True
  | _ => False

/-- What the call gives back. -/
abbrev DiskOp.Res : DiskOp → Type
  | readSector .. => List UInt8
  | writeSector .. => Unit
  | clearSector .. => Unit

/-- A program of the handler. -/
abbrev FatM := Prog DiskOp DiskOp.Res Fault

namespace FatM

def readSector (sector : Nat) (offset : Fin 512) (nbytes : Nat) : FatM (List UInt8) :=
  Prog.op (DiskOp.readSector sector offset nbytes)

def writeSector (data : Chunk) (sector : Nat) (offset : Fin 512) : FatM Unit :=
  Prog.op (DiskOp.writeSector data sector offset)

def clearSector (sector : Nat) (offset : Fin 512) (nbytes : Nat) : FatM Unit :=
  Prog.op (DiskOp.clearSector sector offset nbytes)

/-- A program that ends without a result. -/
def fault {α : Type} (e : Fault) : FatM α := .fail e

end FatM

/-- `sector % 512`, as an offset into a sector. -/
def sectorOffset (offset : Nat) : Fin 512 := ⟨offset % 512, Nat.mod_lt _ (by decide)⟩

/-! ## The two handlers of the calls -/

section Handlers

variable (partitionStart : Nat)

/-- The block a sector of the volume is. -/
def blockOf (sector : Nat) : Nat := (sector + partitionStart) % 2 ^ 32

/-- The calls on the block cache. -/
def cacheOp : Prog.Handler DiskOp DiskOp.Res Fault Cache
  | .readSector sector offset nbytes, c =>
    bufReadBlocks (nbytes + 1) c (blockOf partitionStart sector) offset nbytes
  | .writeSector data sector offset, c =>
    (bufWriteBlocks ⟨false, false⟩ (data.bytes.length + 1) c (.bytes data.bytes)
      (blockOf partitionStart sector) offset data.bytes.length).map fun c => (c, ())
  | .clearSector sector offset nbytes, c =>
    (bufWriteBlocks ⟨false, false⟩ (nbytes + 1) c .null (blockOf partitionStart sector) offset
      nbytes).map fun c => (c, ())

/-- The byte of the device at an offset into a sector. -/
def byteOf (sector : Nat) (offset : Fin 512) : Nat := 512 * blockOf partitionStart sector + offset

theorem byteOf_lt (partitionStart sector : Nat) (offset : Fin 512) :
    byteOf partitionStart sector offset < 2 ^ 41 := by
  have hblock : blockOf partitionStart sector < 2 ^ 32 := Nat.mod_lt _ (by decide)
  have hoff := offset.isLt
  unfold byteOf
  omega

/-- The calls on the flat array. -/
def flatOp : Prog.Handler DiskOp DiskOp.Res Fault (Nat → UInt8)
  | .readSector sector offset nbytes, flat =>
    .ok (flat, ringSlice flat (byteOf partitionStart sector offset) nbytes)
  | .writeSector data sector offset, flat =>
    .ok (ringPatch flat (byteOf partitionStart sector offset) data.bytes, ())
  | .clearSector sector offset nbytes, flat =>
    if offset + nbytes ≤ 512 then
      .ok (ringPatch flat (byteOf partitionStart sector offset) (List.replicate nbytes 0), ())
    else .error .wildPointer

/-- The cache and the array it stands for answer a call alike. -/
theorem cacheOp_simulates (o : DiskOp) (c : Cache) (flat : Nat → UInt8) (h : Stands c flat) :
    Prog.Simulates Stands (cacheOp partitionStart o c) (flatOp partitionStart o flat) := by
  have hmode : (⟨false, false⟩ : Mode).immed = true → c.writethruCritical = true :=
    fun him => nomatch him
  have hblock : ∀ sector, blockOf partitionStart sector < 2 ^ 32 :=
    fun _ => Nat.mod_lt _ (by decide)
  cases o with
  | readSector sector offset nbytes =>
    obtain ⟨c', hrun, h', -⟩ := bufReadBlocks_ring (nbytes + 1) c _ offset nbytes h
      (hblock sector) offset.isLt (Nat.lt_succ_self _)
    exact ⟨c', hrun, h'⟩
  | writeSector data sector offset =>
    have hle := data.le
    obtain ⟨c', hrun, h', -⟩ := bufWriteBlocks_ring ⟨false, false⟩ (data.bytes.length + 1) c flat
      data.bytes _ offset h hmode (hblock sector) offset.isLt (by omega) (Nat.lt_succ_self _)
    refine ⟨c', ?_, h'⟩
    rw [cacheOp, hrun]
    rfl
  | clearSector sector offset nbytes =>
    have hlt := hblock sector
    rw [flatOp]
    by_cases hfit : offset + nbytes ≤ 512
    · obtain ⟨c', hrun, h', -⟩ := bufWriteBlocks_null h hmode
        (blockOf partitionStart sector) hfit
      rw [if_pos hfit, ringPatch_eq _ (by rw [byteOf, List.length_replicate]; omega)]
      refine ⟨c', ?_, h'⟩
      rw [cacheOp, hrun]
      rfl
    · rw [if_neg hfit]
      show cacheOp _ _ _ = _
      rw [cacheOp, bufWriteBlocks_null_past h hmode offset.isLt (by omega)]
      rfl

end Handlers

/-- A program does on the cache what it does on the array the cache stands for. -/
theorem run_cache_flat {α : Type} {c : Cache} {flat : Nat → UInt8} (partitionStart : Nat)
    (p : FatM α) (h : Stands c flat) :
    Prog.Simulates Stands (p.run (cacheOp partitionStart) c) (p.run (flatOp partitionStart) flat) :=
  Prog.run_simulates (cacheOp_simulates partitionStart) p h

/-- The program ends on the cache, with the array the cache then stands for and its result
in `P`. -/
def Yields {α : Type} (partitionStart : Nat) (p : FatM α) (c : Cache)
    (P : (Nat → UInt8) → α → Prop) : Prop :=
  ∃ c' flat' a, p.run (cacheOp partitionStart) c = .ok (c', a) ∧ Stands c' flat' ∧ P flat' a

/-- A program ends well on the cache if and only if it does on the array. -/
theorem yields_iff {α : Type} {c : Cache} {flat : Nat → UInt8} (h : Stands c flat)
    (partitionStart : Nat) (p : FatM α) (P : (Nat → UInt8) → α → Prop) :
    Yields partitionStart p c P ↔
      ∃ flat' a, p.run (flatOp partitionStart) flat = .ok (flat', a) ∧ P flat' a := by
  have hsim := run_cache_flat partitionStart p h
  constructor
  · rintro ⟨c', flat', a, hrun, h', hP⟩
    obtain ⟨flat₁, hflat, h₁⟩ := hsim.of_ok hrun
    rw [← h'.unique h₁] at hflat
    exact ⟨flat', a, hflat, hP⟩
  · rintro ⟨flat', a, hflat, hP⟩
    rw [hflat] at hsim
    obtain ⟨c', hrun, h'⟩ := hsim
    exact ⟨c', flat', a, hrun, h', hP⟩

/-- A program that writes nothing leaves the array as it is. -/
theorem run_reads {α : Type} {p : FatM α} {Q : α → Prop} (hp : p.Meets DiskOp.IsRead Q)
    {partitionStart : Nat} {flat flat' : Nat → UInt8} {a : α}
    (hr : p.run (flatOp partitionStart) flat = .ok (flat', a)) : flat' = flat ∧ Q a := by
  refine hp.run (I := fun s => s = flat) (fun o ho s hs t r hrun => ?_) rfl hr
  cases o with
  | readSector sector offset nbytes =>
    cases hrun
    exact hs
  | writeSector data sector offset => exact ho.elim
  | clearSector sector offset nbytes => exact ho.elim

theorem FatM.readSector_meets (sector : Nat) (offset : Fin 512) (nbytes : Nat) :
    (FatM.readSector sector offset nbytes).Meets DiskOp.IsRead fun _ => True :=
  .op trivial fun _ => trivial

end Cheviot.Fatfs
