import Cheviot.Ext2.Readdir
import Cheviot.Ext2.Walks
import Cheviot.Ext2.InodeTable

/-!
# The two kinds of host

A volume mounted on a little-endian and on a big-endian host (`Volume.host`), and
what the two make of the same disk.

Every member of a record that goes through `bswap2` or `bswap4` is the same on
both: inodes, block pointers, the inode numbers and the lengths of directory
records. Two things are loaded without: the words of a bitmap, and `d_rec_len` in
`NEXT_DISC_DIR_DESC` and `NEXT_DISC_DIR_POS`. So

a search of a directory goes through the same records to the same result exactly
when every record it goes past leads to the same place on both hosts (`Even`,
`search_iff`). `HostsAgree` goes on with the bitmaps and with reading a directory.
-/

namespace Cheviot.Ext2

open Cheviot.Bytes Cheviot.Bits Cheviot.Loop

/-- The volume on a host with that byte order. -/
def Volume.host (v : Volume) (be : Bool) : Volume := { v with beCpu := be }

section Members

variable (v : Volume) (be : Bool) (b : Buf) (o : Nat)

@[simp] theorem host_blockSize : (v.host be).blockSize = v.blockSize := rfl

@[simp] theorem host_beCpu : (v.host be).beCpu = be := rfl

/-! ## What is the same on both -/

theorem ld32_eq_zero : ld32 be b o = 0 ↔ ld32 false b o = 0 := by
  have hswap : swap32 be 0 = 0 := by cases be <;> decide
  constructor
  · intro h
    rw [← swap32_ld32 be, h, hswap]
  · intro h
    rw [← swap32_swap32 be (ld32 be b o), swap32_ld32, h, hswap]

theorem ld16_eq_zero : ld16 be b o = 0 ↔ ld16 false b o = 0 := by
  have hswap : swap16 be 0 = 0 := by cases be <;> decide
  constructor
  · intro h
    rw [← swap16_ld16 be, h, hswap]
  · intro h
    rw [← swap16_swap16 be (ld16 be b o), swap16_ld16, h, hswap]

theorem dIno_eq_zero : dIno be b o = 0 ↔ dIno false b o = 0 := ld32_eq_zero be b o

theorem bswap4_dIno : bswap4 be (dIno be b o) = dIno false b o := bswap4_ld32 be b o

theorem recLen_host : recLen be b o = recLen false b o := by
  rw [recLen, bswap2_ld16, recLen, bswap2_ld16]

/-- Where the next record is, on a little-endian host. -/
theorem nextPos_little : nextPos false b o = o + recLen false b o := rfl

/-- A record of length 0 leads nowhere, on either host. -/
theorem nextPos_stuck : nextPos be b o = o ↔ recLen false b o = 0 := by
  have hz := ld16_eq_zero be b (o + 4)
  rw [← UInt16.toNat_inj, ← UInt16.toNat_inj] at hz
  rw [nextPos, Nat.add_eq_left]
  exact hz

theorem nextPos_ge : o ≤ nextPos be b o := Nat.le_add_right _ _

/-- The block pointers of a file. -/
theorem readMapEntry_host (blk : Nat → Buf) (odi : OndiskInode) (pos : Nat) :
    readMapEntry (v.host be) blk odi pos = readMapEntry (v.host false) blk odi pos := by
  have hentry : readIndirectBlockEntry be = readIndirectBlockEntry false := by
    funext b index
    rw [readIndirectBlockEntry, bswap4_ld32]
    rfl
  unfold readMapEntry
  rw [host_beCpu, hentry]
  rfl

theorem inodeCopyFrom_host : inodeCopyFrom be b o = inodeCopyFrom false b o := by
  simp only [inodeCopyFrom, bswap2_ld16, bswap4_ld32]

theorem inodeCopyTo_host (odi : OndiskInode) : inodeCopyTo be odi b o = inodeCopyTo false odi b o := by
  have hblocks : ∀ c, blocksCopyTo be odi.block c o = blocksCopyTo false odi.block c o := by
    intro c
    simp only [blocksCopyTo, st32_bswap4]
  simp only [inodeCopyTo, st16_bswap2, st32_bswap4, hblocks]

/-- Reading an inode. -/
theorem readInode_host (s : Fs) (i : Nat) :
    readInode (v.host be) s i = readInode (v.host false) s i := by
  have hdisk : ∀ n, diskInode (v.host be) s n = diskInode (v.host false) s n :=
    fun n => inodeCopyFrom_host be _ _
  unfold readInode
  simp only [hdisk]
  rfl

/-- Writing an inode. -/
theorem writeInode_host (env : Env) (s : Fs) (i : Nat) :
    writeInode (v.host be) env s i = writeInode (v.host false) env s i := by
  unfold writeInode
  simp only [host_beCpu, inodeCopyTo_host be]
  rfl

/-- What a new record gets. -/
theorem fillDirent_host (ino : Nat) (name : List UInt8) (mode : UInt16) :
    fillDirent (v.host be) b o ino name mode = fillDirent (v.host false) b o ino name mode := by
  unfold fillDirent
  simp only [host_beCpu, st32_bswap4]
  rfl

theorem st32_zero : st32 be b o 0 = st32 false b o 0 := by
  have hz : bswap4 be 0 = 0 := by cases be <;> decide
  rw [← hz, st32_bswap4, hz]

/-- What a deleted record leaves. -/
theorem clearDirent_host (prev : Option Nat) :
    clearDirent (v.host be) b o prev = clearDirent (v.host false) b o prev := by
  unfold clearDirent
  simp only [host_beCpu, st32_zero be, st16_bswap2, recLen_host be]
  rfl

theorem enterDirent_host (env : Env) (s : Fs) (i block ino : Nat) (name : List UInt8)
    (mode : UInt16) : enterDirent (v.host be) env s i block b o ino name mode =
      enterDirent (v.host false) env s i block b o ino name mode := by
  unfold enterDirent
  simp only [fillDirent_host v be, writeInode_host v be]

theorem deleteDirEntry_host (env : Env) (s : Fs) (i block : Nat) :
    deleteDirEntry (v.host be) env s i block b = deleteDirEntry (v.host false) env s i block b := by
  unfold deleteDirEntry
  rw [writeInode_host v be]

end Members

/-! ## One block -/

/-- The record at `o` leads to the same place on both hosts, where all places from
the end of the block on are one. -/
def SameNext (v : Volume) (b : Buf) (o : Nat) : Prop :=
  min (nextPos false b o) v.blockSize = min (nextPos true b o) v.blockSize

/-- A walk over the records of a block, which goes past those with `pass`: each of
these leads to the same place on both hosts, and where the walk stops, `stop`. -/
def Even (v : Volume) (b : Buf) (pass stop : Nat → Prop) : Prop :=
  ∀ o, CameTo v.blockSize b pass o → o + minDirEntrySize ≤ v.blockSize →
    (pass o → SameNext v b o) ∧ (¬ pass o → stop o)

section Blocks

variable {α : Type} {v : Volume} {b : Buf} {be : Bool} {pass stop : Nat → Prop}
  {f g : Option Nat → Nat → Except Fault (Option α)}

theorem hostStep_end (prev : Option Nat) {o : Nat} (h : v.blockSize ≤ o) :
    recordStep (v.host be) b f (prev, o) = .inr (.ok none) := recordStep_end prev h

theorem hostStep_header (prev : Option Nat) {o : Nat} (h : o < v.blockSize)
    (hout : v.blockSize < o + minDirEntrySize) :
    recordStep (v.host be) b f (prev, o) = .inr (.error .outOfBounds) :=
  recordStep_header prev h hout

theorem hostStep_pass {prev : Option Nat} {o : Nat} (hin : o + minDirEntrySize ≤ v.blockSize)
    (h : f prev o = .ok none) : recordStep (v.host be) b f (prev, o) =
      .inl (some o, min (nextPos be b o) v.blockSize) := recordStep_pass hin h

theorem hostStep_stop {prev : Option Nat} {o : Nat} (hin : o + minDirEntrySize ≤ v.blockSize)
    (h : f prev o ≠ .ok none) : recordStep (v.host be) b f (prev, o) = .inr (f prev o) :=
  recordStep_stop hin h

/-- From a record of length 0 that it goes past, a walk never gets away. -/
theorem comes_stuck (hf : ∀ prev o, f prev o = .ok none ↔ pass o) {o : Nat}
    (hin : o + minDirEntrySize ≤ v.blockSize) (hpass : pass o) (hlen : recLen false b o = 0)
    {prev : Option Nat} {t : Option Nat × Nat}
    (h : Comes (recordStep (v.host be) b f) (prev, o) t) :
    t.2 = o ∧ recordStep (v.host be) b f t = .inl (some o, o) := by
  have hgo : ∀ p, recordStep (v.host be) b f (p, o) = .inl (some o, o) := by
    intro p
    rw [hostStep_pass hin ((hf p o).mpr hpass), (nextPos_stuck be b o).mpr hlen,
      Nat.min_eq_left (by omega)]
  induction h with
  | refl => exact ⟨rfl, hgo prev⟩
  | tail _ hstep ih =>
    rw [ih.2] at hstep
    cases hstep
    exact ⟨rfl, hgo _⟩

/-- A round makes the rest of the block smaller, or is at a record of length 0. -/
theorem recordStep_less (hf : ∀ prev o, f prev o = .ok none ↔ pass o) {prev : Option Nat} {o : Nat}
    {t : Option Nat × Nat} (h : recordStep (v.host be) b f (prev, o) = .inl t) :
    v.blockSize - t.2 < v.blockSize - o ∨
      o + minDirEntrySize ≤ v.blockSize ∧ pass o ∧ recLen false b o = 0 := by
  obtain ⟨hin, hb, rfl⟩ := recordStep_inl h
  rw [host_blockSize] at hin
  by_cases hlen : recLen false b o = 0
  · exact .inr ⟨hin, (hf prev o).mp hb, hlen⟩
  · have hge := nextPos_ge be b o
    have hne : nextPos be b o ≠ o := fun h => hlen ((nextPos_stuck be b o).mp h)
    rw [minDirEntrySize] at hin
    rw [host_beCpu, host_blockSize]
    exact .inl (by omega)

/-- The two hosts do the same in a round at a record that the walk goes past. -/
theorem recordStep_pass_iff (hf : ∀ prev o, f prev o = .ok none ↔ pass o)
    (hg : ∀ prev o, g prev o = .ok none ↔ pass o) {prev : Option Nat} {o : Nat}
    (hin : o + minDirEntrySize ≤ v.blockSize) (hpass : pass o) :
    recordStep (v.host false) b f (prev, o) = recordStep (v.host true) b g (prev, o) ↔
      SameNext v b o := by
  rw [hostStep_pass hin ((hf prev o).mpr hpass), hostStep_pass hin ((hg prev o).mpr hpass),
    Sum.inl.injEq, Prod.mk.injEq]
  exact and_iff_right rfl

/-- The two hosts do the same in a round at a record where the walk stops. -/
theorem recordStep_stop_iff (hf : ∀ prev o, f prev o = .ok none ↔ pass o)
    (hg : ∀ prev o, g prev o = .ok none ↔ pass o) {prev : Option Nat} {o : Nat}
    (hin : o + minDirEntrySize ≤ v.blockSize) (hpass : ¬ pass o) :
    recordStep (v.host false) b f (prev, o) = recordStep (v.host true) b g (prev, o) ↔
      f prev o = g prev o := by
  rw [hostStep_stop hin fun h => hpass ((hf prev o).mp h),
    hostStep_stop hin fun h => hpass ((hg prev o).mp h), Sum.inr.injEq]

/-- A walk comes to the records that the block alone says it does. -/
theorem comes_iff_cameTo (hf : ∀ prev o, f prev o = .ok none ↔ pass o) (o' : Nat) :
    (∃ prev, Comes (recordStep (v.host false) b f) (none, 0) (prev, o')) ↔
      ∃ o, CameTo v.blockSize b pass o ∧ o' = min o v.blockSize := by
  constructor
  · rintro ⟨prev, h⟩
    generalize hs : ((none : Option Nat), 0) = s at h
    generalize ht : (prev, o') = t at h
    induction h generalizing prev o' with
    | refl =>
      cases hs
      cases ht
      exact ⟨0, .first, (Nat.zero_min _).symm⟩
    | @tail u w _ hstep ih =>
      obtain ⟨p, o₁⟩ := u
      obtain ⟨o, ho, hmin⟩ := ih o₁ p rfl
      obtain ⟨hin, hb, hw⟩ := recordStep_inl hstep
      rw [host_blockSize, minDirEntrySize] at hin
      rw [hw] at ht
      cases ht
      have ho₁ : o₁ = o := by omega
      subst ho₁
      exact ⟨_, .next ho hin ((hf _ _).mp hb), rfl⟩
  · rintro ⟨o, ho, rfl⟩
    induction ho with
    | first => exact ⟨none, by rw [Nat.zero_min]⟩
    | @next o _ hin hpass ih =>
      obtain ⟨prev, hprev⟩ := ih
      have hmin : min o v.blockSize = o := Nat.min_eq_left (by omega)
      rw [hmin] at hprev
      exact ⟨some o, hprev.tail (hostStep_pass hin ((hf prev o).mpr hpass))⟩

/-- A walk runs through the block where it comes to its end. -/
theorem walkBlock_none_iff (hf : ∀ prev o, f prev o = .ok none ↔ pass o) :
    walkBlock (v.host false) b f = .ok none ↔ ∃ o, CameTo v.blockSize b pass o ∧ v.blockSize ≤ o := by
  rw [walkBlock_eq_run]
  constructor
  · intro h
    obtain ⟨t, ht, hdone⟩ := done_of_run h fun h => nomatch h
    obtain ⟨prev, o'⟩ := t
    obtain ⟨o, ho, rfl⟩ := (comes_iff_cameTo hf o').mp ⟨prev, ht⟩
    refine ⟨o, ho, Nat.le_of_not_lt fun hlt => ?_⟩
    rw [Nat.min_eq_left (by omega)] at hdone
    rcases Nat.lt_or_ge v.blockSize (o + minDirEntrySize) with hout | hin
    · rw [hostStep_header prev hlt hout] at hdone
      cases hdone
    · by_cases hb : f prev o = .ok none
      · rw [hostStep_pass hin hb] at hdone
        cases hdone
      · rw [hostStep_stop hin hb, Sum.inr.injEq] at hdone
        exact hb hdone
  · rintro ⟨o, ho, hend⟩
    obtain ⟨prev, hprev⟩ := (comes_iff_cameTo hf _).mpr ⟨o, ho, rfl⟩
    rw [Nat.min_eq_right hend] at hprev
    refine run_of_comes (μ := fun t : Option Nat × Nat => v.blockSize - t.2) (fun s t hst => ?_) (Nat.lt_succ_self _)
      hprev (hostStep_end prev (Nat.le_refl _))
    obtain ⟨p, o₁⟩ := s
    rcases recordStep_less hf hst with hlt | ⟨hin, hpass, hlen⟩
    · exact .inl hlt
    · exact .inr fun u hu => ⟨_, (comes_stuck hf hin hpass hlen hu).2⟩

/-- A walk goes through the same records of a block to the same result on both hosts
exactly when the block is even. -/
theorem walkBlock_iff (hf : ∀ prev o, f prev o = .ok none ↔ pass o)
    (hg : ∀ prev o, g prev o = .ok none ↔ pass o)
    (hstop : ∀ prev o, ¬ pass o → (f prev o = g prev o ↔ stop o)) :
    walkedRecords (v.host false) b f = walkedRecords (v.host true) b g ∧
      walkBlock (v.host false) b f = walkBlock (v.host true) b g ↔ Even v b pass stop := by
  -- a record of length 0 is where both hosts stay
  have hstuck : ∀ {o}, recLen false b o = 0 → SameNext v b o := by
    intro o hlen
    rw [SameNext, (nextPos_stuck false b o).mpr hlen, (nextPos_stuck true b o).mpr hlen]
  rw [walkBlock_eq_run, walkBlock_eq_run, walkedRecords, walkedRecords]
  refine (same_iff (μ := fun t : Option Nat × Nat => v.blockSize - t.2) ?_ ?_ (Nat.lt_succ_self _)).trans ?_
  · rintro ⟨prev, o⟩ t h
    rcases recordStep_less hf h with hlt | ⟨hin, hpass, hlen⟩
    · exact .inl hlt
    · refine .inr fun u hu => ?_
      obtain ⟨p, o'⟩ := u
      obtain ⟨rfl, -⟩ := comes_stuck hf hin hpass hlen hu
      exact (recordStep_pass_iff hf hg hin hpass).mpr (hstuck hlen)
  · rintro ⟨prev, o⟩ t h
    rcases recordStep_less hg h with hlt | ⟨hin, hpass, hlen⟩
    · exact .inl hlt
    · exact .inr ((recordStep_pass_iff hf hg hin hpass).mpr (hstuck hlen))
  · constructor
    · intro h o ho hin
      -- what the walks visit is what `CameTo` says, so the rounds differ at an uneven record
      obtain ⟨prev, hprev⟩ := (comes_iff_cameTo hf _).mpr ⟨o, ho, rfl⟩
      rw [Nat.min_eq_left (by omega)] at hprev
      have hstep := h _ hprev
      exact ⟨fun hpass => (recordStep_pass_iff hf hg hin hpass).mp hstep,
        fun hpass => (hstop prev o hpass).mp ((recordStep_stop_iff hf hg hin hpass).mp hstep)⟩
    · rintro h ⟨prev, o'⟩ ht
      obtain ⟨o, ho, rfl⟩ := (comes_iff_cameTo hf o').mp ⟨prev, ht⟩
      rcases Nat.lt_or_ge o v.blockSize with hlt | hend
      · rw [Nat.min_eq_left (by omega)]
        rcases Nat.lt_or_ge v.blockSize (o + minDirEntrySize) with hout | hin
        · rw [hostStep_header prev hlt hout]
          exact (hostStep_header prev hlt hout).symm
        · by_cases hpass : pass o
          · exact (recordStep_pass_iff hf hg hin hpass).mpr ((h o ho hin).1 hpass)
          · exact (recordStep_stop_iff hf hg hin hpass).mpr
              ((hstop prev o hpass).mpr ((h o ho hin).2 hpass))
      · rw [Nat.min_eq_right hend]
        exact (hostStep_end prev (Nat.le_refl _)).trans (hostStep_end prev (Nat.le_refl _)).symm

end Blocks

/-! ## All blocks of a directory -/

/-- The block of a directory at a position, where there is one. -/
def BlockOf (v : Volume) (blk : Nat → Buf) (odi : OndiskInode) (pos block : Nat) : Prop :=
  pos < odi.size.toNat ∧ readMapEntry (v.host false) blk odi pos = block ∧ block ≠ noBlock

/-- A search of a directory is even where each block that it comes to is. -/
def EvenDir (v : Volume) (blk : Nat → Buf) (odi : OndiskInode) (pass stop : Nat → Nat → Prop) :
    Prop :=
  ∀ pos block, CameToBlock (v.host false) blk odi pass pos → BlockOf v blk odi pos block →
    Even v (blk block) (pass block) (stop block)

/-- A search of a directory, `body` in each block, goes through the same blocks and
the same records on both hosts. -/
structure SameWalk {α γ : Type} (v : Volume) (blk : Nat → Buf) (odi : OndiskInode) (hole : String)
    (body : Bool → Nat → Option Nat → Nat → Except Fault (Option α))
    (search : Bool → Nat → Except Fault (Option γ)) : Prop where
  blocks : walkedBlocks (v.host false) blk odi hole (search false) =
    walkedBlocks (v.host true) blk odi hole (search true)
  records : ∀ pos block, pos ∈ walkedBlocks (v.host false) blk odi hole (search false) →
    BlockOf v blk odi pos block →
      walkedRecords (v.host false) (blk block) (body false block) =
        walkedRecords (v.host true) (blk block) (body true block)

section Search

variable {α γ : Type} {v : Volume} {blk : Nat → Buf} {odi : OndiskInode} {hole : String}
  {pass stop : Nat → Nat → Prop} {k : Nat → α → γ}
  {body : Bool → Nat → Option Nat → Nat → Except Fault (Option α)}
  {search : Bool → Nat → Except Fault (Option γ)}

theorem map_ok_none {x : Except Fault (Option α)} {h : α → γ} :
    x.map (Option.map h) = .ok none ↔ x = .ok none := by
  cases x with
  | error e =>
    constructor
    · intro hx
      cases hx
    · intro hx
      cases hx
  | ok r =>
    cases r with
    | none => exact iff_of_true rfl rfl
    | some a =>
      constructor
      · intro hx
        cases hx
      · intro hx
        cases hx

theorem exceptMap_injective {h : α → γ} (hh : Function.Injective h) :
    Function.Injective (Except.map (ε := Fault) h) := by
  intro x y hxy
  cases x with
  | error e =>
    cases y with
    | error e' => cases hxy; rfl
    | ok r => cases hxy
  | ok r =>
    cases y with
    | error e => cases hxy
    | ok r' => exact congrArg Except.ok (hh (Except.ok.inj hxy))

variable (hsearch : ∀ be block,
    search be block = (walkBlock (v.host be) (blk block) (body be block)).map (Option.map (k block)))
  (hpass : ∀ be block prev o, body be block prev o = .ok none ↔ pass block o)

include hsearch hpass

/-- The search comes to the positions that the directory alone says it does. -/
theorem comes_iff_cameToBlock (pos : Nat) :
    Comes (blockStep (v.host false) blk odi hole (search false)) 0 pos ↔
      CameToBlock (v.host false) blk odi pass pos := by
  constructor
  · intro h
    induction h with
    | refl => exact .first
    | tail _ hstep ih =>
      obtain ⟨hpos, hb, hr, rfl⟩ := blockStep_inl hstep
      rw [hsearch, map_ok_none, walkBlock_none_iff (hpass false _)] at hr
      obtain ⟨o, ho, hend⟩ := hr
      exact .next ih hpos hb ho hend
  · intro h
    induction h with
    | first => exact .refl
    | next _ hpos hb ho hend ih =>
      refine ih.tail (blockStep_pass hpos hb ?_)
      rw [hsearch, map_ok_none, walkBlock_none_iff (hpass false _)]
      exact ⟨_, ho, hend⟩

omit hsearch hpass in
/-- The two hosts do the same at a position where the search has the same result. -/
theorem blockStep_iff (pos : Nat) :
    blockStep (v.host false) blk odi hole (search false) pos =
        blockStep (v.host true) blk odi hole (search true) pos ↔
      ∀ block, BlockOf v blk odi pos block → search false block = search true block := by
  rcases Nat.lt_or_ge pos odi.size.toNat with hpos | hpos
  · have hmap := readMapEntry_host v true blk odi pos
    by_cases hb : readMapEntry (v.host false) blk odi pos = noBlock
    · rw [blockStep_hole hpos hb, blockStep_hole hpos (hmap.trans hb)]
      exact iff_of_true rfl fun block h => absurd (h.2.1.symm.trans hb) h.2.2
    · have hb' : readMapEntry (v.host true) blk odi pos ≠ noBlock := fun h => hb (hmap ▸ h)
      have hall : (∀ block, BlockOf v blk odi pos block → search false block = search true block) ↔
          search false (readMapEntry (v.host false) blk odi pos) =
            search true (readMapEntry (v.host false) blk odi pos) :=
        ⟨fun h => h _ ⟨hpos, rfl, hb⟩, fun h block hblock => hblock.2.1 ▸ h⟩
      have hsize : (v.host false).blockSize = (v.host true).blockSize := rfl
      rw [hall]
      by_cases hF : search false (readMapEntry (v.host false) blk odi pos) = .ok none
      · rw [blockStep_pass hpos hb hF, hF]
        by_cases hT : search true (readMapEntry (v.host true) blk odi pos) = .ok none
        · rw [blockStep_pass hpos hb' hT, hsize, ← hmap, hT]
          exact iff_of_true rfl rfl
        · rw [blockStep_stop hpos hb' hT, ← hmap]
          exact iff_of_false (fun h => nomatch h) fun h => hT h.symm
      · rw [blockStep_stop hpos hb hF]
        by_cases hT : search true (readMapEntry (v.host true) blk odi pos) = .ok none
        · rw [blockStep_pass hpos hb' hT]
          refine iff_of_false (fun h => nomatch h) fun h => hF ?_
          rw [h, ← hmap, hT]
        · rw [blockStep_stop hpos hb' hT, Sum.inr.injEq, hmap]
  · rw [blockStep_end hpos, blockStep_end hpos]
    exact iff_of_true rfl fun block h => absurd h.1 (by omega)

variable (hinj : ∀ block, Function.Injective (k block))
  (hstop : ∀ block prev o, ¬ pass block o →
    (body false block prev o = body true block prev o ↔ stop block o))

include hinj hstop

/-- A search of a directory goes through the same records to the same result on both
hosts exactly when it is even. -/
theorem search_iff :
    SameWalk v blk odi hole body search ∧
      walkBlocks (v.host false) blk odi hole (search false) =
        walkBlocks (v.host true) blk odi hole (search true) ↔
      EvenDir v blk odi pass stop := by
  have hblock : ∀ block, walkedRecords (v.host false) (blk block) (body false block) =
        walkedRecords (v.host true) (blk block) (body true block) ∧
      walkBlock (v.host false) (blk block) (body false block) =
        walkBlock (v.host true) (blk block) (body true block) ↔
      Even v (blk block) (pass block) (stop block) :=
    fun block => walkBlock_iff (hpass false block) (hpass true block) (hstop block)
  rw [walkBlocks_eq_run, walkBlocks_eq_run]
  constructor
  · rintro ⟨hwalk, hrun⟩
    rcases Nat.eq_zero_or_pos v.blockSize with hz | hbs
    · intro pos block _ _ o _ hin
      rw [hz, minDirEntrySize] at hin
      omega
    -- every round goes on to a later block, so all that the walk comes to is visited
    have hless : ∀ be p p', blockStep (v.host be) blk odi hole (search be) p = .inl p' →
        odi.size.toNat - p' < odi.size.toNat - p := by
      intro be p p' h
      obtain ⟨hp, -, -, rfl⟩ := blockStep_inl h
      rw [host_blockSize]
      omega
    have hsteps := (same_iff (μ := fun p => odi.size.toNat - p) (fun s t h => .inl (hless false s t h))
      (fun s t h => .inl (hless true s t h)) (Nat.lt_succ_self _)).mp ⟨hwalk.blocks, hrun⟩
    intro pos block hpos hat
    have hcomes : Comes (blockStep (v.host false) blk odi hole (search false)) 0 pos :=
      (comes_iff_cameToBlock hsearch hpass pos).mpr hpos
    refine (hblock block).mp ⟨hwalk.records pos block ?_ hat, ?_⟩
    · exact mem_of_comes (μ := fun p => odi.size.toNat - p) (hless false) (Nat.lt_succ_self _) hcomes
    · have hres := (blockStep_iff pos).mp (hsteps pos hcomes) block hat
      rw [hsearch, hsearch] at hres
      exact exceptMap_injective (Option.map_injective (hinj block)) hres
  · intro h
    -- the blocks that the walk comes to are the same on both hosts as long as each is even
    have heven : ∀ pos block, Comes (blockStep (v.host false) blk odi hole (search false)) 0 pos →
        BlockOf v blk odi pos block → Even v (blk block) (pass block) (stop block) :=
      fun pos block hpos => h pos block ((comes_iff_cameToBlock hsearch hpass pos).mp hpos)
    have hsteps : ∀ pos, Comes (blockStep (v.host false) blk odi hole (search false)) 0 pos →
        blockStep (v.host false) blk odi hole (search false) pos =
          blockStep (v.host true) blk odi hole (search true) pos := by
      intro pos hpos
      refine (blockStep_iff pos).mpr fun block hat => ?_
      rw [hsearch, hsearch, ((hblock block).mpr (heven pos block hpos hat)).2]
    obtain ⟨hblocks, hrun⟩ := visited_congr hsteps (odi.size.toNat + 1)
    exact ⟨⟨hblocks, fun pos block hpos hat =>
      ((hblock block).mpr (heven pos block (comes_of_mem hpos) hat)).1⟩, hrun⟩

end Search

/-! ## The searches -/

/-- What `lookup_dir_block` does at a record. -/
def lookupBody (v : Volume) (name : List UInt8) (b : Buf) (be : Bool) (_prev : Option Nat)
    (o : Nat) : Except Fault (Option Nat) :=
  if dIno be b o ≠ 0 then do
    if ← matchName v b o name then return some (bswap4 be (dIno be b o)).toNat
    else return none
  else .ok none

/-- What `is_dir_block_empty` does at a record. -/
def emptyBody (v : Volume) (b : Buf) (be : Bool) (_prev : Option Nat) (o : Nat) :
    Except Fault (Option Unit) :=
  if dIno be b o ≠ 0 then do
    if ← matchName v b o [0x2E] then return none
    else if ← matchName v b o [0x2E, 0x2E] then return none
    else return some ()
  else .ok none

/-- What `search_block_and_delete` does at a record. -/
def deleteBody (v : Volume) (name : List UInt8) (b : Buf) (be : Bool) (prev : Option Nat)
    (o : Nat) : Except Fault (Option Buf) :=
  if dIno be b o ≠ 0 then do
    if ← matchName v b o name then return some (← clearDirent (v.host be) b o prev)
    else return none
  else .ok none

/-- What `find_dirent_free_space` does at a record. -/
def spaceBody (v : Volume) (required : Nat) (b : Buf) (be : Bool) (_prev : Option Nat) (o : Nat) :
    Except Fault (Option (Buf × Nat)) :=
  let len := recLen be b o
  let actualSize := dirEntrySize (nameLen b o)
  if dIno be b o = 0 ∧ required ≤ len then .ok (some (b, o))
  else if len < actualSize ∨ required ≤ len - actualSize then
    (shrinkDirEntry (v.host be) b o).map some
  else .ok none

/-- The record at `o` is free, or has another name. -/
def Skips (v : Volume) (name : List UInt8) (b : Buf) (o : Nat) : Prop :=
  dIno false b o = 0 ∨ matchName v b o name = .ok false

/-- The record at `o` is free, or one of "." and "..". -/
def SkipsDots (v : Volume) (b : Buf) (o : Nat) : Prop :=
  dIno false b o = 0 ∨ matchName v b o [0x2E] = .ok true ∨
    matchName v b o [0x2E] = .ok false ∧ matchName v b o [0x2E, 0x2E] = .ok true

/-- The record at `o` is free and takes `required` bytes. -/
def Reused (required : Nat) (b : Buf) (o : Nat) : Prop :=
  dIno false b o = 0 ∧ required ≤ recLen false b o

/-- The record at `o` has no room for `required` bytes. -/
def Tight (required : Nat) (b : Buf) (o : Nat) : Prop :=
  ¬ Reused required b o ∧
    ¬ (recLen false b o < dirEntrySize (nameLen b o) ∨
      required ≤ recLen false b o - dirEntrySize (nameLen b o))

/-- The record at `o`, cut down to its size, has no record behind it in the block,
whichever host follows its new length. -/
def NoSplit (v : Volume) (b : Buf) (o : Nat) : Prop :=
  let actualSize := UInt16.ofNat (dirEntrySize (nameLen b o))
  v.blockSize < o + actualSize.toNat + minDirEntrySize ∧
    v.blockSize < o + (bswap2 true actualSize).toNat + minDirEntrySize

section Searches

variable (v : Volume) (name : List UInt8) (b : Buf) (be : Bool)

theorem lookupBody_pass (prev : Option Nat) (o : Nat) :
    lookupBody v name b be prev o = .ok none ↔ Skips v name b o := by
  have hz := dIno_eq_zero be b o
  unfold lookupBody Skips
  by_cases h0 : dIno be b o = 0
  · rw [if_neg (fun h => h h0)]
    exact iff_of_true rfl (.inl (hz.mp h0))
  · rw [if_pos h0, or_iff_right fun h => h0 (hz.mpr h)]
    cases matchName v b o name with
    | error e => exact iff_of_false (fun h => nomatch h) fun h => nomatch h
    | ok r =>
      cases r with
      | false => exact iff_of_true rfl rfl
      | true => exact iff_of_false (fun h => nomatch h) fun h => nomatch h

theorem lookupBody_host (prev : Option Nat) (o : Nat) :
    lookupBody v name b be prev o = lookupBody v name b false prev o := by
  simp only [lookupBody, bswap4_dIno, ne_eq, dIno_eq_zero be b o]

theorem deleteBody_pass (prev : Option Nat) (o : Nat) :
    deleteBody v name b be prev o = .ok none ↔ Skips v name b o := by
  have hz := dIno_eq_zero be b o
  unfold deleteBody Skips
  by_cases h0 : dIno be b o = 0
  · rw [if_neg (fun h => h h0)]
    exact iff_of_true rfl (.inl (hz.mp h0))
  · rw [if_pos h0, or_iff_right fun h => h0 (hz.mpr h)]
    cases matchName v b o name with
    | error e => exact iff_of_false (fun h => nomatch h) fun h => nomatch h
    | ok r =>
      cases r with
      | false => exact iff_of_true rfl rfl
      | true =>
        refine iff_of_false (fun h => ?_) fun h => nomatch h
        have hclear : (clearDirent (v.host be) b o prev >>= fun c => pure (some c)) = .ok none := h
        obtain ⟨c, -, hc⟩ := ok_of_bind hclear
        cases hc

theorem deleteBody_host (prev : Option Nat) (o : Nat) :
    deleteBody v name b be prev o = deleteBody v name b false prev o := by
  simp only [deleteBody, clearDirent_host v be, ne_eq, dIno_eq_zero be b o]

theorem emptyBody_pass (prev : Option Nat) (o : Nat) :
    emptyBody v b be prev o = .ok none ↔ SkipsDots v b o := by
  have hz := dIno_eq_zero be b o
  unfold emptyBody SkipsDots
  by_cases h0 : dIno be b o = 0
  · rw [if_neg (fun h => h h0)]
    exact iff_of_true rfl (.inl (hz.mp h0))
  · rw [if_pos h0, or_iff_right fun h => h0 (hz.mpr h)]
    cases matchName v b o [0x2E] with
    | error e => exact iff_of_false (fun h => nomatch h) fun h => by simp at h
    | ok r =>
      cases r with
      | true => exact iff_of_true rfl (.inl rfl)
      | false =>
        cases matchName v b o [0x2E, 0x2E] with
        | error e => exact iff_of_false (fun h => nomatch h) fun h => by simp at h
        | ok r =>
          cases r with
          | true => exact iff_of_true rfl (.inr ⟨rfl, rfl⟩)
          | false => exact iff_of_false (fun h => nomatch h) fun h => by simp at h

theorem emptyBody_host (prev : Option Nat) (o : Nat) :
    emptyBody v b be prev o = emptyBody v b false prev o := by
  simp only [emptyBody, ne_eq, dIno_eq_zero be b o]

theorem toNat_bswap2 (w : UInt16) :
    (bswap2 true w).toNat = w.toNat / 256 + 256 * (w.toNat % 256) := by
  have hw := w.toNat_lt
  rw [bswap2_eq_swap16]
  simp only [swap16, if_true, word16, byte16, UInt16.toNat_ofNat', UInt8.toNat_ofNat',
    Nat.pow_zero, Nat.pow_one, Nat.div_one]
  have hhigh : w.toNat / 256 < 256 := by omega
  have hlow : w.toNat % 256 < 256 := by omega
  rw [Nat.mod_eq_of_lt (show w.toNat / 256 < 2 ^ 8 from hhigh)]
  exact Nat.mod_eq_of_lt (by simp only [Nat.reducePow]; omega)

/-- The bytes of the size of a record are never the same. -/
theorem dirEntrySize_bytes (n : Nat) (hn : n ≤ 255) :
    (UInt16.ofNat (dirEntrySize n)).toNat = dirEntrySize n ∧
      (bswap2 true (UInt16.ofNat (dirEntrySize n))).toNat ≠ dirEntrySize n := by
  have hsize : (UInt16.ofNat (dirEntrySize n)).toNat = dirEntrySize n := by
    rw [UInt16.toNat_ofNat', Nat.mod_eq_of_lt]
    rw [dirEntrySize_eq]
    omega
  refine ⟨hsize, ?_⟩
  rw [toNat_bswap2, hsize, dirEntrySize_eq]
  omega

/-- The record that is split off is in another place on either host. -/
theorem shrinkDirEntry_iff (o : Nat) :
    shrinkDirEntry (v.host false) b o = shrinkDirEntry (v.host true) b o ↔ NoSplit v b o := by
  have hlen : nameLen b o ≤ 255 := by
    have h := (b (o + 6)).toNat_lt
    rw [nameLen]
    omega
  obtain ⟨hsize, hswap⟩ := dirEntrySize_bytes (nameLen b o) hlen
  simp only [shrinkDirEntry, host_beCpu, host_blockSize, nextPos, ld16_st16, NoSplit]
  have hlittle : bswap2 false (UInt16.ofNat (dirEntrySize (nameLen b o))) =
      UInt16.ofNat (dirEntrySize (nameLen b o)) := rfl
  rw [hlittle]
  by_cases h0 : v.blockSize < o + (UInt16.ofNat (dirEntrySize (nameLen b o))).toNat + minDirEntrySize
  · rw [if_pos h0, and_iff_right h0]
    by_cases h1 : v.blockSize <
        o + (bswap2 true (UInt16.ofNat (dirEntrySize (nameLen b o)))).toNat + minDirEntrySize
    · rw [if_pos h1]
      exact iff_of_true rfl h1
    · rw [if_neg h1]
      exact iff_of_false (fun h => nomatch h) h1
  · rw [if_neg h0]
    refine iff_of_false (fun h => ?_) fun h => h0 h.1
    split at h
    · cases h
    · injection h with h
      injection h with hb ho
      omega

theorem spaceBody_pass (required : Nat) (prev : Option Nat) (o : Nat) :
    spaceBody v required b be prev o = .ok none ↔ Tight required b o := by
  have hz := dIno_eq_zero be b o
  simp only [spaceBody, recLen_host be, Tight, Reused, ← hz]
  split
  next h => exact iff_of_false (fun h => nomatch h) fun hn => hn.1 h
  next h =>
    rw [and_iff_right h]
    split
    next hroom =>
      refine iff_of_false (fun hx => ?_) fun hn => hn hroom
      cases hs : shrinkDirEntry (v.host be) b o with
      | error e =>
        rw [hs] at hx
        cases hx
      | ok r =>
        rw [hs] at hx
        cases hx
    next hroom => exact iff_of_true rfl hroom

theorem spaceBody_stop (required : Nat) (prev : Option Nat) (o : Nat)
    (h : ¬ Tight required b o) : spaceBody v required b false prev o = spaceBody v required b true prev o ↔
      Reused required b o ∨ NoSplit v b o := by
  have hz := dIno_eq_zero true b o
  rw [Tight] at h
  simp only [spaceBody, recLen_host true, hz]
  by_cases hr : dIno false b o = 0 ∧ required ≤ recLen false b o
  · rw [if_pos hr, if_pos hr]
    exact iff_of_true rfl (.inl hr)
  · -- a record that is not passed and not free is split, at a place that its length decides
    have hroom : recLen false b o < dirEntrySize (nameLen b o) ∨
        required ≤ recLen false b o - dirEntrySize (nameLen b o) := by
      by_contra hn
      exact h ⟨hr, hn⟩
    have hnot : ¬ Reused required b o := hr
    rw [if_neg hr, if_neg hr, if_pos hroom, if_pos hroom, or_iff_right hnot, ← shrinkDirEntry_iff]
    constructor
    · intro hx
      cases hF : shrinkDirEntry (v.host false) b o with
      | error e =>
        rw [hF] at hx
        cases hT : shrinkDirEntry (v.host true) b o with
        | error e' =>
          rw [hT] at hx
          cases hx
          rfl
        | ok r' =>
          rw [hT] at hx
          cases hx
      | ok r =>
        rw [hF] at hx
        cases hT : shrinkDirEntry (v.host true) b o with
        | error e' =>
          rw [hT] at hx
          cases hx
        | ok r' =>
          rw [hT] at hx
          cases hx
          rfl
    · exact congrArg _

end Searches

/-- `lookup_dir` goes through the same records on both hosts. -/
def SameLookupWalk (v : Volume) (blk : Nat → Buf) (odi : OndiskInode) (name : List UInt8) : Prop :=
  SameWalk v blk odi "lookup_dir found a hole in a directory"
    (fun be block => lookupBody v name (blk block) be)
    fun be block => lookupDirBlock (v.host be) (blk block) name

/-- `is_dir_empty` goes through the same records on both hosts. -/
def SameEmptyWalk (v : Volume) (blk : Nat → Buf) (odi : OndiskInode) : Prop :=
  SameWalk v blk odi "extfs: is_dir_empty found a hole in a directory"
    (fun be block => emptyBody v (blk block) be)
    fun be block => do
      if ← isDirBlockEmpty (v.host be) (blk block) then return none else return some ()

/-- `dirent_delete` goes through the same records on both hosts, and finds the name in
the same one. -/
def SameDeleteWalk (v : Volume) (blk : Nat → Buf) (odi : OndiskInode) (name : List UInt8) : Prop :=
  SameWalk v blk odi "dirent_delete found a hole in a directory"
      (fun be block => deleteBody v name (blk block) be)
      (fun be block => do
        let found ← searchBlockAndDelete (v.host be) (blk block) name
        return found.map fun b => (block, b)) ∧
    findAndDelete (v.host false) blk odi name = findAndDelete (v.host true) blk odi name

/-- `dirent_enter` goes through the same records on both hosts, and enters the name
into the same one. -/
def SameEnterWalk (v : Volume) (blk : Nat → Buf) (odi : OndiskInode) (required : Nat) : Prop :=
  SameWalk v blk odi "dirent_enter found a hole in a directory"
      (fun be block => spaceBody v required (blk block) be)
      (fun be block => do
        let space ← findDirentFreeSpace (v.host be) (blk block) required
        return space.map fun r => (block, r)) ∧
    findSpace (v.host false) blk odi required = findSpace (v.host true) blk odi required

section Results

variable (v : Volume) (blk : Nat → Buf) (odi : OndiskInode) (name : List UInt8)

theorem map_id (x : Except Fault (Option Nat)) : x.map (Option.map id) = x := by
  rw [Option.map_id, Except.map_id, id]

/-- What `lookup_dir` makes of the result of its search. -/
def lookupResult : Option Nat → Except Errno Nat
  | some n => .ok n
  | none => .error .enoent

theorem lookupResult_injective : Function.Injective lookupResult := by
  intro x y h
  cases x with
  | none =>
    cases y with
    | none => rfl
    | some m => cases h
  | some n =>
    cases y with
    | none => cases h
    | some m =>
      cases h
      rfl

theorem lookupDir_eq (w : Volume) (hname : name.length ≤ nameMax) :
    lookupDir w blk odi name =
      (walkBlocks w blk odi "lookup_dir found a hole in a directory" fun block =>
        lookupDirBlock w (blk block) name).map lookupResult := by
  rw [lookupDir, if_neg (by omega)]
  cases walkBlocks w blk odi "lookup_dir found a hole in a directory" fun block =>
      lookupDirBlock w (blk block) name with
  | error e => rfl
  | ok r =>
    cases r with
    | none => rfl
    | some n => rfl

theorem isNone_injective : Function.Injective (Option.isNone : Option Unit → Bool) := by
  intro x y h
  cases x with
  | none =>
    cases y with
    | none => rfl
    | some m => cases h
  | some n =>
    cases y with
    | none => cases h
    | some m => rfl

/-- `lookup_dir` on both hosts. -/
theorem lookupDir_host_iff (hname : name.length ≤ nameMax) :
    SameLookupWalk v blk odi name ∧
        lookupDir (v.host false) blk odi name = lookupDir (v.host true) blk odi name ↔
      EvenDir v blk odi (fun block => Skips v name (blk block)) fun _ _ => True := by
  have hsearch : ∀ be block, lookupDirBlock (v.host be) (blk block) name =
      (walkBlock (v.host be) (blk block) (lookupBody v name (blk block) be)).map
        (Option.map id) := fun be block => (map_id _).symm
  rw [lookupDir_eq blk odi name _ hname, lookupDir_eq blk odi name _ hname,
    (exceptMap_injective lookupResult_injective).eq_iff]
  exact search_iff hsearch (fun be block => lookupBody_pass v name (blk block) be)
    (fun _ => Function.injective_id)
    fun block prev o _ => iff_of_true (lookupBody_host v name (blk block) true prev o).symm trivial

/-- `is_dir_empty` on both hosts. -/
theorem isDirEmpty_host_iff :
    SameEmptyWalk v blk odi ∧ isDirEmpty (v.host false) blk odi = isDirEmpty (v.host true) blk odi ↔
      EvenDir v blk odi (fun block => SkipsDots v (blk block)) fun _ _ => True := by
  have hsearch : ∀ be block, (do
      if ← isDirBlockEmpty (v.host be) (blk block) then return none else return some () :
        Except Fault (Option Unit)) =
      (walkBlock (v.host be) (blk block) (emptyBody v (blk block) be)).map (Option.map id) := by
    intro be block
    have hbody : isDirBlockEmpty (v.host be) (blk block) = do
        return (← walkBlock (v.host be) (blk block) (emptyBody v (blk block) be)).isNone := rfl
    rw [hbody]
    cases walkBlock (v.host be) (blk block) (emptyBody v (blk block) be) with
    | error e => rfl
    | ok r =>
      cases r with
      | none => rfl
      | some u => rfl
  have heq : ∀ be, isDirEmpty (v.host be) blk odi =
      (walkBlocks (v.host be) blk odi "extfs: is_dir_empty found a hole in a directory"
        fun block => do
          if ← isDirBlockEmpty (v.host be) (blk block) then return none
          else return some ()).map Option.isNone := fun be => rfl
  rw [heq, heq, (exceptMap_injective isNone_injective).eq_iff]
  exact search_iff hsearch (fun be block => emptyBody_pass v (blk block) be)
    (fun _ => Function.injective_id)
    fun block prev o _ => iff_of_true (emptyBody_host v (blk block) true prev o).symm trivial

/-- The search of `dirent_delete` on both hosts. -/
theorem findAndDelete_host_iff :
    SameDeleteWalk v blk odi name ↔
      EvenDir v blk odi (fun block => Skips v name (blk block)) fun _ _ => True := by
  have hsearch : ∀ be block, (do
      let found ← searchBlockAndDelete (v.host be) (blk block) name
      return found.map fun b => (block, b) : Except Fault (Option (Nat × Buf))) =
      (walkBlock (v.host be) (blk block) (deleteBody v name (blk block) be)).map
        (Option.map (block, ·)) := fun be block => rfl
  exact search_iff hsearch (fun be block => deleteBody_pass v name (blk block) be)
    (fun _ => Prod.mk_right_injective _)
    fun block prev o _ => iff_of_true (deleteBody_host v name (blk block) true prev o).symm trivial

/-- The search of `dirent_enter` on both hosts. -/
theorem findSpace_host_iff (required : Nat) :
    SameEnterWalk v blk odi required ↔
      EvenDir v blk odi (fun block => Tight required (blk block)) fun block o =>
        Reused required (blk block) o ∨ NoSplit v (blk block) o := by
  have hsearch : ∀ be block, (do
      let space ← findDirentFreeSpace (v.host be) (blk block) required
      return space.map fun r => (block, r) : Except Fault (Option (Nat × Buf × Nat))) =
      (walkBlock (v.host be) (blk block) (spaceBody v required (blk block) be)).map
        (Option.map (block, ·)) := fun be block => rfl
  exact search_iff hsearch (fun be block => spaceBody_pass v (blk block) be required)
    (fun _ => Prod.mk_right_injective _)
    fun block prev o h => spaceBody_stop v (blk block) required prev o h

end Results

end Cheviot.Ext2
