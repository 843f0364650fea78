import Cheviot.Ext2.MapDelete
import Mathlib.Data.Set.Card
import Mathlib.Data.Set.Finite.List

/-!
# Counting the blocks of a file: `i_blocks`

`enter_map_entry` adds `sb_sectors_in_block` to `i_blocks` for the block and for each
indirect block it makes, `delete_map_entry` takes it off for the entry it clears and
for each indirect block it frees. `i_blocks` counts the blocks that are reachable from
the map (`Counted`), and goes on doing so along any calls (`countRun_ok`), except

* where an entry is cleared that is null already: nothing is missing above it, and
  the count goes down all the same;
* where the blocks of the file are so many that their sectors do not fit into 32 bits.

`MapAdds.ncard_mapped` says how many blocks a change of the map makes reachable, in
either direction.
-/

namespace Cheviot.Ext2

open Cheviot.Bytes Cheviot.Forest

/-- The data and indirect blocks reachable from the map of inode `n`. -/
def mapped (v : Volume) (s : Fs) (n : Nat) : Set Nat :=
  {b | b ≠ 0 ∧ ∃ k p, Place (mapShape v) (n, k) p ∧ blockAt v s n k p = b}

/-- `i_blocks` of the inode in slot `i` counts the reachable blocks of inode `n`. -/
def Counted (v : Volume) (n i : Nat) (s : Fs) : Prop :=
  (s.slot i).odi.blocks.toNat = v.sectorsInBlock * (mapped v s n).ncard

section Count

variable {v : Volume} {live : Nat → Prop} {n i : Nat} {s s' : Fs} {k₀ : Fin 15}
  {p₀ new : List Nat}

theorem mapped_finite (hs : FilesOk v s live) (hn : live n) : (mapped v s n).Finite := by
  refine (Set.finite_lt_nat v.blocksCount).subset fun b hb => ?_
  obtain ⟨hne, k, p, hp, hat⟩ := hb
  subst hat
  exact (hs.map.data n hn k p hp hne).2.1

/-- The blocks of the new map are those of the old one and the new ones. -/
theorem MapAdds.mapped_eq (h : MapAdds v live n s s' k₀ p₀ new) (hn : live n)
    (hp₀ : Place (mapShape v) (n, k₀) p₀) : mapped v s' n = mapped v s n ∪ {b | b ∈ new} := by
  ext b
  constructor
  · intro ⟨hb, k, p, hp, hat⟩
    rcases h.place n hn k p hp with heq | ⟨-, -, hmem⟩
    · exact .inl ⟨hb, k, p, hp, heq.symm.trans hat⟩
    · exact .inr (hat ▸ hmem)
  · intro hb
    rcases hb with ⟨hb, k, p, hp, hat⟩ | hb
    · exact ⟨hb, k, p, hp, (h.stays hn hp (by rwa [hat])).trans hat⟩
    · obtain ⟨hdata, p, hp, -, hat⟩ := h.linked b hb
      exact ⟨hdata.ne_noBlock, k₀, p, hp₀.initial hp, hat⟩

/-- A new block was not reachable. -/
theorem MapAdds.not_mapped (h : MapAdds v live n s s' k₀ p₀ new) (hs' : FilesOk v s' live)
    (hn : live n) (hp₀ : Place (mapShape v) (n, k₀) p₀) {b : Nat} (hb : b ∈ new) :
    b ∉ mapped v s n := by
  intro ⟨hne, k, q, hq, hat⟩
  obtain ⟨-, p, hp, hnull, hat'⟩ := h.linked b hb
  have hstay := (h.stays hn hq (by rwa [hat])).trans hat
  obtain ⟨hr, rfl⟩ := hs'.map.unshared (n, k) q (n, k₀) p hn hn hq (hp₀.initial hp)
    (hstay.trans hat'.symm) (by rw [show ptr _ _ _ _ q = b from hstay]; exact hne)
  obtain ⟨-, rfl⟩ := Prod.mk.inj hr
  exact hne (hat.symm.trans hnull)

theorem ncard_list (h : new.Nodup) : {b | b ∈ new}.ncard = new.length := by
  have hset : {b | b ∈ new} = (new.toFinset : Set Nat) := by
    ext b
    simp
  rw [hset, Set.ncard_coe_finset, List.toFinset_card_of_nodup h]

/-- As many blocks more are reachable as have been added. -/
theorem MapAdds.ncard_mapped (h : MapAdds v live n s s' k₀ p₀ new) (hs : FilesOk v s live)
    (hs' : FilesOk v s' live) (hn : live n) (hp₀ : Place (mapShape v) (n, k₀) p₀) :
    (mapped v s' n).ncard = (mapped v s n).ncard + new.length := by
  rw [h.mapped_eq hn hp₀, Set.ncard_union_eq ?_ (mapped_finite hs hn) (List.finite_toSet new),
    ncard_list h.nodup]
  rw [Set.disjoint_left]
  intro b hb hnew
  exact h.not_mapped hs' hn hp₀ hnew hb

/-! ## `delete_map_entry` -/

/-- A deletion keeps the count, unless it clears an entry that is null already. -/
theorem MapDeleted.counted {gone : List Nat} (h : MapDeleted v live n i s s' k₀ p₀ gone)
    (hs : FilesOk v s live) (hn : live n) (hl : Leaf v n k₀ p₀)
    (hreached : PathReached v s n k₀ p₀ → SectorsLess v i s s' (gone.length + 1))
    (hnot : ¬ PathReached v s n k₀ p₀ → SectorsLess v i s s' gone.length)
    (hmeets : blockAt v s n k₀ p₀ = 0 → ¬ PathReached v s n k₀ p₀) (hc : Counted v n i s) :
    Counted v n i s' ∧ (s'.slot i).odi.blocks.toNat ≤ (s.slot i).odi.blocks.toNat := by
  have hcard := h.cut.back.ncard_mapped h.cut.ok hs hn hl.1
  have hless : SectorsLess v i s s' (gone ++ if blockAt v s n k₀ p₀ = 0 then []
      else [blockAt v s n k₀ p₀]).length := by
    by_cases hnull : blockAt v s n k₀ p₀ = 0
    · rw [if_pos hnull, List.append_nil]
      exact hnot (hmeets hnull)
    · rw [if_neg hnull, List.length_append, List.length_singleton]
      refine hreached fun q hq _ hq0 => hnull ?_
      -- a block that is there has all of its path
      have htake := eq_take_of_initial hq rfl
      rw [htake] at hq0
      exact null_of_take hq0 List.prefix_rfl hq.length_le
  generalize (gone ++ if blockAt v s n k₀ p₀ = 0 then []
    else [blockAt v s n k₀ p₀]).length = m at hcard hless
  unfold Counted at hc ⊢
  unfold SectorsLess at hless
  rw [hcard, Nat.mul_add] at hc
  have hm : (UInt32.ofNat (v.sectorsInBlock * m)).toNat = v.sectorsInBlock * m := by
    have := (s.slot i).odi.blocks.toNat_lt
    rw [UInt32.toNat_ofNat', Nat.mod_eq_of_lt (by omega)]
  have hsub : (s'.slot i).odi.blocks.toNat =
      (s.slot i).odi.blocks.toNat - v.sectorsInBlock * m := by
    rw [hless, UInt32.toNat_sub_of_le _ _ (UInt32.le_iff_toNat_le.mpr (by rw [hm]; omega)), hm]
  omega

/-! ## `new_block` -/

/-- How many places on the path are empty. -/
def missing (v : Volume) (s : Fs) (n : Nat) (k : Fin 15) (p : List Nat) : Nat :=
  (List.range (p.length + 1)).countP fun d => blockAt v s n k (p.take d) == 0

/-- How many blocks `new_block` adds at the end of the path: all that are missing, or, where
there are not as many free ones, all of these but the one that it takes first. -/
noncomputable def added (v : Volume) (s : Fs) (n : Nat) (k : Fin 15) (p : List Nat) : Nat :=
  if missing v s n k p ≤ {b | BlockFree v s b}.ncard then missing v s n k p
  else {b | BlockFree v s b}.ncard - 1

theorem added_le_missing (v : Volume) (s : Fs) (n : Nat) (k : Fin 15) (p : List Nat) :
    added v s n k p ≤ missing v s n k p := by
  unfold added
  split
  · exact Nat.le_refl _
  · omega

theorem free_finite (hs : FilesOk v s live) : {b | BlockFree v s b}.Finite :=
  (Set.finite_lt_nat v.blocksCount).subset fun _ hb => (BlockFree.data hs.blocks hb).2.1

/-- There are at least as many free blocks as can be taken. -/
theorem length_le_free (hs : FilesOk v s live) (hnd : new.Nodup)
    (hfree : ∀ b ∈ new, BlockFree v s b) : new.length ≤ {b | BlockFree v s b}.ncard := by
  rw [← ncard_list hnd]
  exact Set.ncard_le_ncard hfree (free_finite hs)

/-- Each block that is added fills an empty place on the path. -/
theorem MapAdds.length_le_missing (h : MapAdds v live n s s' k₀ p₀ new) :
    new.length ≤ missing v s n k₀ p₀ := by
  have hsub : new ⊆ ((List.range (p₀.length + 1)).filter
      fun d => blockAt v s n k₀ (p₀.take d) == 0).map fun d => blockAt v s' n k₀ (p₀.take d) := by
    intro b hb
    obtain ⟨-, p, hp, hnull, hat⟩ := h.linked b hb
    have htake := List.prefix_iff_eq_take.mp hp
    refine List.mem_map.mpr ⟨p.length, List.mem_filter.mpr ⟨List.mem_range.mpr ?_, ?_⟩, ?_⟩
    · exact Nat.lt_succ_of_le hp.length_le
    · rw [← htake, hnull]
      rfl
    · rw [← htake]
      exact hat
  have hle := (h.nodup.subperm hsub).length_le
  rwa [List.length_map, ← List.countP_eq_length_filter] at hle

/-- Where the end of the path has a block in the end, every empty place has received one. -/
theorem MapAdds.missing_le (h : MapAdds v live n s s' k₀ p₀ new) (hs' : FilesOk v s' live)
    (hn : live n) (hl : Leaf v n k₀ p₀) (hend : blockAt v s' n k₀ p₀ ≠ 0) :
    missing v s n k₀ p₀ ≤ new.length := by
  have hfull : ∀ d, blockAt v s' n k₀ (p₀.take d) ≠ 0 := by
    intro d hd
    rcases Nat.le_total d p₀.length with hle | hge
    · exact hend (null_of_take hd List.prefix_rfl hle)
    · rw [List.take_of_length_le hge] at hd
      exact hend hd
  have hplace : ∀ d, Place (mapShape v) (n, k₀) (p₀.take d) :=
    fun d => hl.1.initial (List.take_prefix d p₀)
  have hnd : (((List.range (p₀.length + 1)).filter
      fun d => blockAt v s n k₀ (p₀.take d) == 0).map
        fun d => blockAt v s' n k₀ (p₀.take d)).Nodup := by
    refine List.Nodup.map_on (fun d hd d' hd' heq => ?_) (List.nodup_range.filter _)
    have hlt := List.mem_range.mp (List.mem_filter.mp hd).1
    have hlt' := List.mem_range.mp (List.mem_filter.mp hd').1
    have hsame : p₀.take d = p₀.take d' := by
      by_contra hne
      exact hs'.ne_block hn (hplace d) (hplace d') (hfull d) hne heq
    have hlen := congrArg List.length hsame
    rw [List.length_take, List.length_take] at hlen
    omega
  have hsub : ((List.range (p₀.length + 1)).filter
      fun d => blockAt v s n k₀ (p₀.take d) == 0).map
        (fun d => blockAt v s' n k₀ (p₀.take d)) ⊆ new := by
    intro b hb
    obtain ⟨d, hd, rfl⟩ := List.mem_map.mp hb
    have hnull := beq_iff_eq.mp (List.mem_filter.mp hd).2
    rcases h.place n hn k₀ (p₀.take d) (hplace d) with heq | ⟨-, -, hmem⟩
    · exact absurd (heq.trans hnull) (hfull d)
    · exact hmem
  have hle := (hnd.subperm hsub).length_le
  rwa [List.length_map, ← List.countP_eq_length_filter] at hle

theorem Grown.length_le_added (h : Grown v live n i s s' k₀ p₀ new) (hs : FilesOk v s live)
    (hlast : new ≠ [] → ∃ c, BlockFree v s' c) : new.length ≤ added v s n k₀ p₀ := by
  unfold added
  split
  · exact h.length_le_missing
  · by_cases hnew : new = []
    · rw [hnew]
      exact Nat.zero_le _
    · obtain ⟨c, hc⟩ := hlast hnew
      obtain ⟨hfree, hnot⟩ := (h.taken.2 c).mp hc
      have hle := length_le_free hs (List.nodup_cons.mpr ⟨hnot, h.nodup⟩) fun b hb => by
        rcases List.mem_cons.mp hb with rfl | hb
        · exact hfree
        · exact h.taken.1 b hb
      rw [List.length_cons] at hle
      omega

/-- Blocks added keep the count, if their sectors fit. -/
theorem MapLinked.counted (h : MapLinked v live n i s s' k₀ p₀ new) (hs : FilesOk v s live)
    (hn : live n) (hl : Leaf v n k₀ p₀) {m : Nat} (hm : new.length ≤ m)
    (hfits : v.sectorsInBlock * ((mapped v s n).ncard + m) < 2 ^ 32) (hc : Counted v n i s) :
    Counted v n i s' := by
  have hcard := h.ncard_mapped hs h.ok hn hl.1
  have hle := Nat.mul_le_mul_left v.sectorsInBlock hm
  rw [Nat.mul_add] at hfits
  unfold Counted at hc ⊢
  rw [hcard, Nat.mul_add, h.sectors, UInt32.toNat_add, UInt32.toNat_ofNat', hc,
    Nat.mod_eq_of_lt (show v.sectorsInBlock * new.length < 2 ^ 32 by omega),
    Nat.mod_eq_of_lt (by omega)]

end Count

/-! ## Sequences of calls -/

/-- A call of one of the two functions at a position. -/
inductive MapOp where
  | new (env : Env) (position : UInt32)
  | delete (env : Env) (position : UInt32)

/-- The state after a call on cache slot `i`. -/
def mapStep (v : Volume) (s : Fs) (i : Nat) : MapOp → Except Fault Fs
  | .new env position => (newBlock v env s i position.toNat).map Prod.fst
  | .delete env position => (deleteMapEntry v env s i position.toNat).map Prod.fst

/-- The calls that keep the count: a deletion does not clear an entry that is null already,
and the sectors of a file with the blocks added fit into 32 bits. -/
def KeepsCount (v : Volume) (s : Fs) (n : Nat) : MapOp → Prop
  | .new _ position => ∀ k p, calcBlockIndirectionOffsets v position.toNat = some (k, p) →
      v.sectorsInBlock * ((mapped v s n).ncard + added v s n k p) < 2 ^ 32
  | .delete _ position => ∀ k p, calcBlockIndirectionOffsets v position.toNat = some (k, p) →
      blockAt v s n k p = 0 → ¬ PathReached v s n k p

/-- Along the calls, as long as they are such, `i_blocks` counts the reachable blocks in
every state passed, no call ends in a panic, and a deletion does not raise the count. -/
def CountRunOk (v : Volume) (n i : Nat) : Fs → List MapOp → Prop
  | s, [] => Counted v n i s
  | s, op :: ops => Counted v n i s ∧ (KeepsCount v s n op →
      ∃ s', mapStep v s i op = .ok s' ∧
        (∀ env position, op = .delete env position →
          (s'.slot i).odi.blocks.toNat ≤ (s.slot i).odi.blocks.toNat) ∧
        CountRunOk v n i s' ops)

section Run

variable {v : Volume} {live : Nat → Prop} {n i : Nat} {s s' : Fs}

/-- One call. -/
theorem mapStep_counted (hv : Layout v) (hs : FilesOk v s live) (hn : live n) (hf : Found s n i)
    (hc : Counted v n i s) (op : MapOp) (hkeeps : KeepsCount v s n op) :
    ∃ s', mapStep v s i op = .ok s' ∧ FilesOk v s' live ∧ Found s' n i ∧ Counted v n i s' ∧
      ∀ env position, op = .delete env position →
        (s'.slot i).odi.blocks.toNat ≤ (s.slot i).odi.blocks.toNat := by
  cases op with
  | delete env position =>
    obtain ⟨k, p, hcalc, hl⟩ := calc_place hv.log_le position.toNat_lt
    obtain ⟨s', used, hrun, -, -, gone, hdeleted, hreached, hnot⟩ :=
      deleteMapEntry_spec hv env hs hn hf hcalc (hl n)
    obtain ⟨hc', hle⟩ := hdeleted.counted hs hn (hl n) hreached hnot (hkeeps k p hcalc) hc
    exact ⟨s', congrArg (Except.map Prod.fst) hrun, hdeleted.cut.ok,
      hdeleted.cut.slot.found hf, hc', fun _ _ _ => hle⟩
  | new env position =>
    obtain ⟨k, p, hcalc, hl⟩ := calc_place hv.log_le position.toNat_lt
    -- the block and the indirect blocks that are missing are counted on as they come
    have hfits := hkeeps k p hcalc
    suffices h : ∃ s' r, newBlock v env s i position.toNat = .ok (s', r) ∧ FilesOk v s' live ∧
        Found s' n i ∧ Counted v n i s' by
      obtain ⟨s', r, hrun, hok, hf', hc'⟩ := h
      exact ⟨s', congrArg (Except.map Prod.fst) hrun, hok, hf', hc', fun _ _ h => nomatch h⟩
    by_cases hnull : blockAt v s n k p = 0
    · obtain ⟨s', r, hrun, hdone⟩ := newBlock_hole hv env hs hn hf hcalc (hl n) hnull
      refine ⟨s', r, hrun, ?_⟩
      cases r with
      | none =>
        obtain ⟨new, hgrown, hlast⟩ := hdone
        exact ⟨hgrown.ok, hgrown.slot.found hf,
          hgrown.toMapLinked.counted hs hn (hl n) (hgrown.length_le_added hs hlast) hfits hc⟩
      | some b =>
        obtain ⟨hat, -, new, hlinked, htaken⟩ := hdone
        refine ⟨hlinked.ok, hlinked.slot.found hf, hlinked.counted hs hn (hl n) ?_ hfits hc⟩
        have hend : blockAt v s' n k p ≠ 0 := by
          rw [hat]
          exact (hlinked.linked b (by simp)).1.ne_noBlock
        have hle := hlinked.missing_le hlinked.ok hn (hl n) hend
        have hfree := length_le_free hs hlinked.nodup htaken.1
        unfold added
        rw [if_pos (hle.trans hfree)]
        exact hlinked.length_le_missing
    · -- the block that is mapped is cleared, and that is all
      have hread : readMapEntry v s.blk (s.slot i).odi position.toNat = blockAt v s n k p := by
        rw [← hf.nodeAt, readMapEntry_eq hcalc]
      obtain ⟨hok, hplaces⟩ := hs.setBlk_leaf hv hn hf (hl n) hnull zeroed
      have hsame : MapAdds v live n s (s.setBlk (blockAt v s n k p) zeroed) k p [] :=
        .of_places hplaces
      refine ⟨s.setBlk (blockAt v s n k p) zeroed, some (blockAt v s n k p), ?_, hok,
        (SlotStep.setBlk s (hs.map.data n hn k p (hl n).1 hnull) zeroed).found hf, ?_⟩
      · unfold newBlock
        rw [hread]
        exact if_neg hnull
      · unfold Counted
        rw [hsame.ncard_mapped hs hok hn (hl n).1]
        exact hc

/-- `i_blocks` goes on counting the reachable blocks, in every state of a run of calls that
keep the count. -/
theorem countRun_ok (hv : Layout v) (hn : live n) (ops : List MapOp) : ∀ s : Fs,
    FilesOk v s live → Found s n i → Counted v n i s → CountRunOk v n i s ops := by
  induction ops with
  | nil => exact fun s _ _ hc => hc
  | cons op ops ih =>
    intro s hs hf hc
    refine ⟨hc, fun hkeeps => ?_⟩
    obtain ⟨s', hrun, hok, hf', hc', hle⟩ := mapStep_counted hv hs hn hf hc op hkeeps
    exact ⟨s', hrun, hle, ih s' hok hf' hc'⟩

end Run

/-! ### The new file on the small volume -/

theorem sampleFileFs_mapped : mapped sampleVolume sampleFileFs 12 = ∅ := by
  ext b
  refine iff_of_false (fun h => ?_) (Set.notMem_empty b)
  obtain ⟨hb, k, p, hp, hat⟩ := h
  rw [sampleFileFs_oneBlock.place (.inr rfl) hp, if_neg (by omega)] at hat
  exact hb hat.symm

theorem sampleFileFs_counted : Counted sampleVolume 12 0 sampleFileFs := by
  unfold Counted
  rw [sampleFileFs_mapped, Set.ncard_empty]
  rfl

/-- A call of `new_block` below the first indirect block, which keeps the count, and two
calls after it. -/
theorem countRun_ok_sample :
    KeepsCount sampleVolume sampleFileFs 12 (.new sampleEnv 12288) ∧
      CountRunOk sampleVolume 12 0 sampleFileFs
        [.new sampleEnv 12288, .delete sampleEnv 12288, .new sampleEnv 12288] := by
  refine ⟨fun k p hcalc => ?_, countRun_ok sampleVolume_layout (.inr rfl) _ _
    sampleFileFs_filesOk rfl sampleFileFs_counted⟩
  have hp : calcBlockIndirectionOffsets sampleVolume (12288 : UInt32).toNat = some (12, [0]) := by
    decide
  rw [hp] at hcalc
  cases hcalc
  have hle : added sampleVolume sampleFileFs 12 12 [0] ≤ 2 :=
    (added_le_missing _ _ _ _ _).trans List.countP_le_length
  rw [sampleFileFs_mapped, Set.ncard_empty, show sampleVolume.sectorsInBlock = 2 from rfl]
  omega

/-- The file has no blocks, and deleting position 0 takes two sectors off the count of 0. -/
theorem deleteMapEntry_miscounts :
    Counted sampleVolume 12 0 sampleFileFs ∧
      ∃ s', mapStep sampleVolume sampleFileFs 0 (.delete sampleEnv 0) = .ok s' ∧
        (s'.slot 0).odi.blocks = 4294967294 ∧ ¬ Counted sampleVolume 12 0 s' := by
  refine ⟨sampleFileFs_counted, ?_⟩
  obtain ⟨s', used, hrun, -, -, gone, hdeleted, -⟩ := deleteMapEntry_spec sampleVolume_layout
    sampleEnv sampleFileFs_filesOk (.inr rfl) (rfl : Found sampleFileFs 12 0)
    (show calcBlockIndirectionOffsets sampleVolume (0 : UInt32).toNat = some (0, []) by decide)
    ⟨⟨Nat.zero_le _, by simp⟩, rfl⟩
  have hblocks : (deleteMapEntry sampleVolume sampleEnv sampleFileFs 0
      (0 : UInt32).toNat).toOption.map (fun r => (r.1.slot 0).odi.blocks) = some 4294967294 := by
    decide
  rw [hrun] at hblocks
  have hblocks : (s'.slot 0).odi.blocks = 4294967294 := Option.some.inj hblocks
  refine ⟨s', congrArg (Except.map Prod.fst) hrun, hblocks, fun hc => ?_⟩
  have hempty : mapped sampleVolume s' 12 ⊆ mapped sampleVolume sampleFileFs 12 := by
    rw [hdeleted.cut.back.mapped_eq (.inr rfl) ⟨Nat.zero_le _, by simp⟩]
    exact Set.subset_union_left
  rw [sampleFileFs_mapped, Set.subset_empty_iff] at hempty
  unfold Counted at hc
  rw [hempty, Set.ncard_empty, hblocks] at hc
  cases hc

end Cheviot.Ext2
