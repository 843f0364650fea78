import Cheviot.Fatfs.Disk

/-!
# A cache without a write-back delay

`init` creates the cache with a write-back delay of 0. A buffer is then written whenever it is
put back, and again when it is evicted, as nothing takes the mark of a dirty buffer off it in
between.

* `WrittenThrough` — the device has every byte of the array the cache stands for.
* `run_through` — it has after every program of the handler.
-/

namespace Cheviot.Fatfs

open Cheviot.Bytes

/-- The cache stands for the bytes of the device. -/
structure WrittenThrough (c : Cache) (flat : Nat → UInt8) : Prop extends Stands c flat where
  delay : c.writebackDelay = 0
  onDevice : ∀ a, c.dev (a / 512) (a % 512) = flat a

section Buffers

variable {c c' : Cache} {flat flat' : Nat → UInt8} {i block : Nat}

/-- A buffer that is written to the device does not change it: the bytes are there. -/
theorem WrittenThrough.write_same (h : WrittenThrough c flat) (hi : i < c.bufferCnt)
    (hused : (c.blkTable i).inUse = true) (a : Nat) :
    Function.update c.dev (c.blkTable i).sector.toNat (c.blkTable i).mem (a / 512) (a % 512) =
      flat a := by
  by_cases hs : a / 512 = (c.blkTable i).sector.toNat
  · rw [hs, Function.update_self]
    exact h.cached i hi hused a hs
  · rw [Function.update_of_ne hs]
    exact h.onDevice a

/-- `BufGetBlock` writes a dirty buffer back, and no more. -/
theorem WrittenThrough.getBlock (h : WrittenThrough c flat)
    (hrun : bufGetBlock c block = .ok (c', i)) : WrittenThrough c' flat := by
  obtain ⟨c₁, j, hget, hstands, hcfg, -⟩ := bufGetBlock_spec h.toStands block
  rw [hrun] at hget
  cases hget
  refine ⟨hstands, hcfg.delay.trans h.delay, ?_⟩
  unfold bufGetBlock at hrun
  cases hfind : (c.hashList (hashIdx block)).find? fun k => (c.blkTable k).sector == block with
  | some k =>
    rw [hfind] at hrun
    cases hrun
    exact h.onDevice
  | none =>
    rw [hfind] at hrun
    dsimp only at hrun
    cases hfree : c.freeList with
    | cons k rest =>
      rw [hfree] at hrun
      cases hrun
      exact h.onDevice
    | nil =>
      rw [hfree] at hrun
      dsimp only at hrun
      cases hlast : c.lruList.getLast? with
      | none =>
        rw [hlast] at hrun
        cases hrun
      | some k =>
        rw [hlast] at hrun
        cases hrun
        obtain ⟨hk, hused⟩ := (h.lru_mem i).mp (List.mem_of_getLast? hlast)
        show ∀ a, (if (c.blkTable i).dirty = true then cleanBlock c i else c).dev _ _ = _
        split
        · intro a
          rw [cleanBlock_dev]
          exact h.write_same hk hused a
        · exact h.onDevice

/-- `BufPutBlock` writes the buffer. -/
theorem WrittenThrough.putBlock (h : WrittenThrough c flat) (hi : i < c.bufferCnt)
    (hused : (c.blkTable i).inUse = true) (hsector : (c.blkTable i).sector = block) (mem : Buf) :
    WrittenThrough (bufPutBlock (c.setBlk i { c.blkTable i with mem := mem }) i ⟨false, false⟩)
      (withSector flat block mem) := by
  have hmode : (⟨false, false⟩ : Mode).immed = true → c.writethruCritical = true :=
    fun him => absurd him Bool.false_ne_true
  obtain ⟨hstands, hcfg⟩ := bufPutBlock_spec h.toStands hi hused hsector mem ⟨false, false⟩ hmode
  refine ⟨hstands, hcfg.delay.trans h.delay, fun a => ?_⟩
  rw [bufPutBlock_eq i mem (fun j hj => ((h.dirty_mem j).mp hj).2) hmode,
    if_neg Bool.false_ne_true, if_pos h.delay]
  have hmem : ((markBlock c i mem).blkTable i).mem = mem := by
    rw [markBlock, Cache.setBlk_apply, if_pos rfl]
  have hsec : ((markBlock c i mem).blkTable i).sector = block := by
    rw [markBlock, Cache.setBlk_apply, if_pos rfl]
    exact hsector
  show Function.update c.dev _ _ (a / 512) (a % 512) = _
  rw [hmem, hsec, Int.toNat_natCast, withSector]
  by_cases hs : a / 512 = block
  · rw [if_pos hs, hs, Function.update_self]
  · rw [if_neg hs, Function.update_of_ne hs]
    exact h.onDevice a

end Buffers

/-! ## Calls -/

section Calls

variable {flat : Nat → UInt8}

/-- `BufReadBlocks` leaves the device as it is. -/
theorem bufReadBlocks_through (fuel : Nat) : ∀ {c block offset nbytes c' data},
    WrittenThrough c flat → bufReadBlocks fuel c block offset nbytes = .ok (c', data) →
    WrittenThrough c' flat := by
  induction fuel with
  | zero =>
    intro _ _ _ _ _ _ _ hrun
    cases hrun
  | succ fuel ih =>
    intro c block offset nbytes c' data h hrun
    rw [bufReadBlocks] at hrun
    by_cases h0 : nbytes = 0
    · rw [if_pos h0] at hrun
      cases hrun
      exact h
    · rw [if_neg h0] at hrun
      obtain ⟨c₁, i, hget, -⟩ := bufGetBlock_spec h.toStands block
      rw [hget] at hrun
      cases hrest : bufReadBlocks fuel c₁ ((block + 1) % 2 ^ 32) 0
          (nbytes - min nbytes (c.blockSize - offset)) with
      | error e =>
        simp only [bind, Except.bind, hrest] at hrun
        cases hrun
      | ok r =>
        simp only [bind, Except.bind, hrest] at hrun
        cases hrun
        exact ih (h.getBlock hget) hrest

/-- After `BufWriteBlocks` the device has what the cache stands for. -/
theorem bufWriteBlocks_through (fuel : Nat) : ∀ {c flat addr block offset nbytes c'},
    WrittenThrough c flat →
    bufWriteBlocks ⟨false, false⟩ fuel c addr block offset nbytes = .ok c' →
    ∃ flat', WrittenThrough c' flat' := by
  induction fuel with
  | zero =>
    intro _ _ _ _ _ _ _ _ hrun
    cases hrun
  | succ fuel ih =>
    intro c flat addr block offset nbytes c' h hrun
    rw [bufWriteBlocks] at hrun
    by_cases h0 : nbytes = 0
    · rw [if_pos h0] at hrun
      cases hrun
      exact ⟨flat, h⟩
    · rw [if_neg h0] at hrun
      obtain ⟨c₁, i, hget, -, -, hi, hused, hsector⟩ := bufGetBlock_spec h.toStands block
      rw [hget] at hrun
      cases hfill : fillBuffer (c₁.blkTable i).mem offset addr
          (min nbytes (c.blockSize - offset)) with
      | error e =>
        simp only [bind, Except.bind, hfill] at hrun
        cases hrun
      | ok mem =>
        simp only [bind, Except.bind, hfill] at hrun
        exact ih ((h.getBlock hget).putBlock hi hused hsector mem) hrun

variable {partitionStart : Nat}

theorem ok_of_map {x : Except Fault Cache} {c : Cache} {u : Unit}
    (h : (x.map fun c => (c, ())) = .ok (c, u)) : x = .ok c := by
  cases x with
  | error e => cases h
  | ok c' =>
    cases h
    rfl

/-- A call of a program keeps the device up to date. -/
theorem cacheOp_through (o : DiskOp) (c : Cache) (flat : Nat → UInt8) (h : WrittenThrough c flat) :
    Prog.Simulates WrittenThrough (cacheOp partitionStart o c) (flatOp partitionStart o flat) := by
  have hsim := cacheOp_simulates partitionStart o c flat h.toStands
  cases hflat : flatOp partitionStart o flat with
  | error e =>
    rw [hflat] at hsim
    exact hsim
  | ok r =>
    rw [hflat] at hsim
    obtain ⟨c', hrun, hstands⟩ := hsim
    refine ⟨c', hrun, ?_⟩
    suffices hthrough : ∃ flat', WrittenThrough c' flat' by
      obtain ⟨flat', h'⟩ := hthrough
      rw [hstands.unique h'.toStands]
      exact h'
    cases o with
    | readSector sector offset nbytes => exact ⟨flat, bufReadBlocks_through _ h hrun⟩
    | writeSector data sector offset => exact bufWriteBlocks_through _ h (ok_of_map hrun)
    | clearSector sector offset nbytes => exact bufWriteBlocks_through _ h (ok_of_map hrun)

/-- Every program of the handler keeps a cache written through. -/
theorem run_through {α : Type} {c : Cache} (partitionStart : Nat) (p : FatM α)
    (h : WrittenThrough c flat) : Prog.Simulates WrittenThrough
      (p.run (cacheOp partitionStart) c) (p.run (flatOp partitionStart) flat) :=
  Prog.run_simulates cacheOp_through p h

/-- What a program does on the array it does on the cache. -/
theorem run_through_of_flat {α : Type} {c : Cache} {flat' : Nat → UInt8} {p : FatM α} {a : α}
    (h : WrittenThrough c flat) (hrun : p.run (flatOp partitionStart) flat = .ok (flat', a)) :
    ∃ c', p.run (cacheOp partitionStart) c = .ok (c', a) ∧ WrittenThrough c' flat' := by
  have hsim := run_through partitionStart p h
  rw [hrun] at hsim
  exact hsim

/-- What a program does on such a cache it does on the array. -/
theorem run_through_of_cache {α : Type} {c c' : Cache} {p : FatM α} {a : α}
    (h : WrittenThrough c flat) (hrun : p.run (cacheOp partitionStart) c = .ok (c', a)) :
    ∃ flat', p.run (flatOp partitionStart) flat = .ok (flat', a) ∧ WrittenThrough c' flat' :=
  (run_through partitionStart p h).of_ok hrun

/-- A new cache stands for the device. -/
theorem createCache_through {dev : Nat → Buf} {bufferCnt : Nat} {writethru : Bool} {c : Cache}
    (hcreate : createCache dev bufferCnt 512 writethru 0 = some c) :
    WrittenThrough c fun a => dev (a / 512) (a % 512) := by
  obtain ⟨hstands, -, hdelay⟩ := createCache_stands hcreate
  refine ⟨hstands, hdelay, fun a => ?_⟩
  unfold createCache at hcreate
  split at hcreate
  · cases hcreate
  · cases hcreate
    rfl

end Calls

end Cheviot.Fatfs
