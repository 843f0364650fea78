import Cheviot.Fatfs.Sector

/-!
# What `SyncCache` has on the device

The four branches of `BufPutBlock` mark a buffer dirty or clean, and write it or
not, by the mode of the call and the configuration of the cache. A buffer that is
to be written at once (`BUF_IMMED`) is taken off the dirty list, but is only
written where `writethru_critical` is set.

Every call keeps `Stands`, which says where the bytes are: in a dirty buffer, or on the device.
The one branch that takes the mark off a buffer without writing it is the one that the calls of
such a run do not take.

* `Durable` — a buffer that differs from its sector is on the dirty list, and
  `SyncCache` brings the device up to date.
* `bufRun_durable` — so it is after any calls, where no call asks for a write at
  once that the cache is not configured for.

Mirroring notes:
- The bytes `BufWriteBlocks` is given are `nbytes` in number. A null pointer stands
  for zeros; over the end of a sector the call does not return.
- A call that goes past sector 2^32 - 1 goes on with sector 0, as the source's
  `block++` does.
-/

namespace Cheviot.Fatfs

open Cheviot.Bytes

/-! ## Calls -/

/-- A call of `BufReadBlocks` or `BufWriteBlocks`. -/
inductive BufCall where
  | read (block offset nbytes : Nat) (hblock : block < 2 ^ 32) (hoff : offset < 512)
      (hn : nbytes < 2 ^ 32)
  | write (mode : Mode) (data : List UInt8) (block offset : Nat) (hblock : block < 2 ^ 32)
      (hoff : offset < 512) (hn : data.length < 2 ^ 32)
  | zero (mode : Mode) (block offset nbytes : Nat) (hblock : block < 2 ^ 32) (hoff : offset < 512)
      (hn : nbytes < 2 ^ 32)

namespace BufCall

/-- The call, on a cache. -/
def run (c : Cache) : BufCall → Except Fault Cache
  | read block offset nbytes .. => (bufReadBlocks (nbytes + 1) c block offset nbytes).map Prod.fst
  | write mode data block offset .. =>
    bufWriteBlocks mode (data.length + 1) c (.bytes data) block offset data.length
  | zero mode block offset nbytes .. => bufWriteBlocks mode (nbytes + 1) c .null block offset nbytes

/-- What a call does to the bytes of a flat array. -/
def flat (f : Nat → UInt8) : BufCall → Nat → UInt8
  | read .. => f
  | write _ data block offset .. => ringPatch f (512 * block + offset) data
  | zero _ block offset nbytes .. => ringPatch f (512 * block + offset) (List.replicate nbytes 0)

/-- The call does not ask for a write at once, or such writes take place. -/
def Written (writethruCritical : Bool) : BufCall → Prop
  | read .. => True
  | write mode data .. => data = [] ∨ (mode.immed = true → writethruCritical = true)
  | zero mode _ _ nbytes .. => nbytes = 0 ∨ (mode.immed = true → writethruCritical = true)

/-- Zeros are written within one sector. -/
def Fits : BufCall → Prop
  | zero _ _ offset nbytes .. => offset + nbytes ≤ 512
  | _ => True

/-- The calls one after another. -/
def runAll (c : Cache) (calls : List BufCall) : Except Fault Cache := calls.foldlM run c

end BufCall

/-! ## The invariant -/

/-- What differs from the device is on the dirty list, and `SyncCache` writes it there. -/
structure Durable (c : Cache) (flat : Nat → UInt8) : Prop where
  listed : ∀ i, i < c.bufferCnt → (c.blkTable i).inUse = true →
    (∃ j, j < 512 ∧ (c.blkTable i).mem j ≠ c.dev (c.blkTable i).sector.toNat j) → i ∈ c.dirtyList
  clean : (syncCache c).dirtyList = []
  synced : ∀ a, (syncCache c).dev (a / 512) (a % 512) = flat a

section Calls

variable {c : Cache} {flat : Nat → UInt8}

/-- The loop of `SyncCache` empties the dirty list. -/
theorem syncLoop_dirtyList (n : Nat) : ∀ c : Cache, c.dirtyList.length ≤ n →
    (syncLoop n c).dirtyList = [] := by
  induction n with
  | zero => exact fun c h => List.length_eq_zero_iff.mp (Nat.le_zero.mp h)
  | succ n ih =>
    intro c h
    unfold syncLoop
    cases hd : c.dirtyList with
    | nil => exact hd
    | cons i rest =>
      apply ih
      show (c.dirtyList.erase i).length ≤ n
      rw [hd, List.erase_cons_head]
      rw [hd, List.length_cons] at h
      omega

theorem Stands.durable (h : Stands c flat) : Durable c flat := by
  refine ⟨fun i hi hused ⟨j, hj, hne⟩ => ?_, syncLoop_dirtyList _ c (Nat.le_refl _), fun a => ?_⟩
  · -- the device has the bytes of a sector without a dirty buffer
    by_contra hnot
    have hnn := h.sector_nonneg i hi hused
    have hdiv : (512 * (c.blkTable i).sector.toNat + j) / 512 = (c.blkTable i).sector.toNat := by
      omega
    have hmod : (512 * (c.blkTable i).sector.toNat + j) % 512 = j := by omega
    have hmem := h.cached i hi hused _ hdiv
    have hdev := h.device (512 * (c.blkTable i).sector.toNat + j) fun k hk hd hs => by
      rw [hdiv, Int.toNat_of_nonneg hnn] at hs
      have hki := h.sector_inj k i hk hi (h.dirty_used k hk hd) hused hs
      exact hnot ((h.dirty_mem i).mpr ⟨hi, hki ▸ hd⟩)
    rw [hmod] at hmem
    rw [hdiv, hmod] at hdev
    exact hne (hmem.trans hdev.symm)
  · obtain ⟨h', -⟩ := syncCache_stands h
    refine h'.device a fun i hi hd _ => ?_
    have hmem := (h'.dirty_mem i).mpr ⟨hi, hd⟩
    rw [syncCache, syncLoop_dirtyList _ c (Nat.le_refl _)] at hmem
    cases hmem

/-- A call that is written, or writes nothing, does to the cache what it does to the array. -/
theorem BufCall.run_stands (h : Stands c flat) {call : BufCall}
    (hwritten : call.Written c.writethruCritical) (hfits : call.Fits) :
    ∃ c', call.run c = .ok c' ∧ Stands c' (call.flat flat) ∧ SameConfig c c' := by
  cases call with
  | read block offset nbytes hblock hoff hn =>
    obtain ⟨c', hrun, h', hcfg⟩ := bufReadBlocks_ring (nbytes + 1) c block offset nbytes h hblock
      hoff (Nat.lt_succ_self _)
    refine ⟨c', ?_, h', hcfg⟩
    rw [BufCall.run, hrun]
    rfl
  | write mode data block offset hblock hoff hn =>
    rcases hwritten with hnil | hmode
    · subst hnil
      refine ⟨c, bufWriteBlocks_zero _ _ _ _ _ _, ?_, .refl c⟩
      rw [BufCall.flat, ringPatch_eq _ (by rw [List.length_nil]; omega), patch_nil]
      exact h
    · exact bufWriteBlocks_ring mode (data.length + 1) c flat data block offset h hmode hblock hoff
        hn (Nat.lt_succ_self _)
  | zero mode block offset nbytes hblock hoff hn =>
    have hend : 512 * block + offset + (List.replicate nbytes (0 : UInt8)).length ≤ 2 ^ 41 := by
      have hfit : offset + nbytes ≤ 512 := hfits
      rw [List.length_replicate]
      omega
    rw [BufCall.flat, ringPatch_eq _ hend]
    rcases hwritten with h0 | hmode
    · subst h0
      refine ⟨c, bufWriteBlocks_zero _ _ _ _ _ _, ?_, .refl c⟩
      rw [List.replicate_zero, patch_nil]
      exact h
    · exact bufWriteBlocks_null h hmode block hfits

/-- Zeros over the end of a sector do not come back. -/
theorem BufCall.run_fits (h : Stands c flat) {call : BufCall}
    (hwritten : call.Written c.writethruCritical) {c' : Cache} (hrun : call.run c = .ok c') :
    call.Fits := by
  cases call with
  | zero mode block offset nbytes hblock hoff hn =>
    show offset + nbytes ≤ 512
    by_contra hpast
    rcases hwritten with h0 | hmode
    · omega
    · rw [BufCall.run, bufWriteBlocks_null_past h hmode hoff (by omega)] at hrun
      cases hrun
  | _ => trivial

/-- The calls of a run do to the cache what they do to the array it stands for. -/
theorem BufCall.runAll_stands (calls : List BufCall) : ∀ (c : Cache) (flat : Nat → UInt8),
    Stands c flat → (∀ call ∈ calls, call.Written c.writethruCritical) →
    (∀ c', runAll c calls = .ok c' → Stands c' (calls.foldl BufCall.flat flat)) ∧
    ((∀ call ∈ calls, call.Fits) → ∃ c', runAll c calls = .ok c') := by
  induction calls with
  | nil =>
    intro c flat h _
    exact ⟨fun c' hrun => by cases hrun; exact h, fun _ => ⟨c, rfl⟩⟩
  | cons call calls ih =>
    intro c flat h hwritten
    obtain ⟨hcall, hcalls⟩ := List.forall_mem_cons.mp hwritten
    have hstep : ∀ c₁, call.run c = .ok c₁ → runAll c (call :: calls) = runAll c₁ calls := by
      intro c₁ hrun
      show (call.run c >>= fun c₁ => runAll c₁ calls) = _
      rw [hrun]
      rfl
    -- no call changes how the cache writes through
    have hnext : ∀ c₁, SameConfig c c₁ →
        ∀ call ∈ calls, call.Written c₁.writethruCritical := by
      intro c₁ hcfg call hmem
      rw [hcfg.writethru]
      exact hcalls call hmem
    constructor
    · intro c' hrun
      cases hr : call.run c with
      | error e =>
        have hfail : runAll c (call :: calls) = .error e := by
          show (call.run c >>= fun c₁ => runAll c₁ calls) = _
          rw [hr]
          rfl
        rw [hfail] at hrun
        cases hrun
      | ok c₁ =>
        -- a call that ends has not left the array
        obtain ⟨c₂, hrun₂, h₂, hcfg⟩ := run_stands h hcall (run_fits h hcall hr)
        rw [hr] at hrun₂
        cases hrun₂
        rw [hstep c₁ hr] at hrun
        exact (ih c₁ _ h₂ (hnext c₁ hcfg)).1 c' hrun
    · intro hfits
      obtain ⟨hfit, hfits⟩ := List.forall_mem_cons.mp hfits
      obtain ⟨c₁, hr, h₁, hcfg⟩ := run_stands h hcall hfit
      rw [hstep c₁ hr]
      exact (ih c₁ _ h₁ (hnext c₁ hcfg)).2 hfits

end Calls

/-! ## Runs -/

/-- On a cache as `CreateCache` makes it, of any configuration, after any calls none of
which asks for a write at once without `writethru_critical`: what differs from the
device is on the dirty list, and `SyncCache` brings every byte last written to the
device. The calls return as long as no zeros go over the end of a sector. -/
theorem bufRun_durable {dev : Nat → Buf} {bufferCnt delay : Nat} {writethru : Bool} {c : Cache}
    (hcreate : createCache dev bufferCnt 512 writethru delay = some c) {calls : List BufCall}
    (hwritten : ∀ call ∈ calls, call.Written writethru) :
    (∀ c', BufCall.runAll c calls = .ok c' →
      Durable c' (calls.foldl BufCall.flat fun a => dev (a / 512) (a % 512))) ∧
    ((∀ call ∈ calls, call.Fits) → ∃ c', BufCall.runAll c calls = .ok c') := by
  obtain ⟨h, rfl, -⟩ := createCache_stands hcreate
  obtain ⟨hok, hreturn⟩ := BufCall.runAll_stands calls c _ h hwritten
  exact ⟨fun c' hrun => (hok c' hrun).durable, hreturn⟩

/-- One byte, written at once. -/
def writeNow : BufCall :=
  .write ⟨true, false⟩ [7] 0 0 (by decide) sector_pos (by decide)

/-- `bufRun_durable` at one byte on a cache with `writethru_critical` and a delay. -/
theorem bufRun_durable_sample :
    ∃ c c', createCache (fun _ _ => 0) 1 512 true 5 = some c ∧
      BufCall.runAll c [writeNow] = .ok c' ∧
      Durable c' (ringPatch (fun _ => 0) 0 [7]) := by
  have hcreate : createCache (fun _ _ => 0) 1 512 true 5 = some _ := rfl
  have hwritten : ∀ call ∈ [writeNow], call.Written true :=
    List.forall_mem_singleton.mpr (.inr fun _ => rfl)
  obtain ⟨hok, hreturn⟩ := bufRun_durable hcreate hwritten
  obtain ⟨c', hrun⟩ := hreturn (List.forall_mem_singleton.mpr trivial)
  exact ⟨_, c', hcreate, hrun, hok c' hrun⟩

/-- Without `writethru_critical` the byte is not on the device after `SyncCache`. -/
theorem writeNow_lost :
    ∃ c c', createCache (fun _ _ => 0) 1 512 false 5 = some c ∧
      BufCall.runAll c [writeNow] = .ok c' ∧
      ¬ Durable c' (ringPatch (fun _ => 0) 0 [7]) := by
  have hcreate : createCache (fun _ _ => 0) 1 512 false 5 = some _ := rfl
  refine ⟨_, _, hcreate, rfl, fun h => ?_⟩
  exact absurd (h.synced 0) (by decide)

end Cheviot.Fatfs
