import Cheviot.Lib.Row
import Cheviot.Ext2.Dir
import Mathlib.Data.List.GetD

/-!
# A directory block as a row of records

On a little-endian host, a block whose records have their full lengths is a row of
entries (`Tiled`), and the searches of `Dir` are walks over that row.

The records of a block are a row of `Lib.Row`. A walk is then `pick` along the row, and an
insertion or a deletion exchanges a part of the row for another one of the same length.

* `walkBlock_tiled` — a walk over the records of a block is a walk over the row.
* `lookupDirBlock_tiled` — a lookup finds the first entry that answers to the name:
  one of that name, or one without a name.
* `dirEnter_tiled` — an insertion takes the first entry with room, and either fills
  it or cuts it in two.
* `dirDelete_tiled` — a deletion frees the first entry of the block, or gives another
  to the one before it.

Mirroring notes:
- An `Entry` knows its offset in the block. The file type of a record is not part of
  it, as nothing reads it.
-/

namespace Cheviot.Ext2

open Cheviot.Bytes Cheviot.Rows

/-! ## Entries -/

/-- A record of a directory block. -/
@[ext] structure Entry where
  off : Nat
  len : Nat
  ino : Nat
  name : List UInt8
  deriving DecidableEq, Repr

namespace Entry

/-- The bytes the entry needs for its name. -/
def need (e : Entry) : Nat := dirEntrySize e.name.length

/-- The record is long enough, and as long as a record can be. -/
def Fits (e : Entry) : Prop := e.len % 4 = 0 ∧ e.need ≤ e.len

/-- The entry is found under a name: it has that name, or none. -/
def Answers (name : List UInt8) (e : Entry) : Prop := e.ino ≠ 0 ∧ (e.name = [] ∨ e.name = name)

instance (name : List UInt8) (e : Entry) : Decidable (e.Answers name) :=
  inferInstanceAs (Decidable (_ ∧ _))

/-- The entry can be filled with one of `required` bytes. -/
def Free (required : Nat) (e : Entry) : Prop := e.ino = 0 ∧ required ≤ e.len

instance (required : Nat) (e : Entry) : Decidable (e.Free required) :=
  inferInstanceAs (Decidable (_ ∧ _))

/-- There is room for `required` bytes in the entry, or behind it. -/
def Room (required : Nat) (e : Entry) : Prop := e.Free required ∨ e.need + required ≤ e.len

instance (required : Nat) (e : Entry) : Decidable (e.Room required) :=
  inferInstanceAs (Decidable (_ ∨ _))

/-- What the entry becomes when a name goes into it, or behind it. -/
def put (ino : Nat) (name : List UInt8) (e : Entry) : List Entry :=
  if e.Free (dirEntrySize name.length) then [⟨e.off, e.len, ino, name⟩]
  else [⟨e.off, e.need, e.ino, e.name⟩, ⟨e.off + e.need, e.len - e.need, ino, name⟩]

theorem need_ge (e : Entry) : minDirEntrySize + e.name.length ≤ e.need := by
  rw [need, dirEntrySize_eq, minDirEntrySize]
  omega

theorem Fits.pos {e : Entry} (h : e.Fits) : minDirEntrySize ≤ e.len := by
  have := e.need_ge
  have := h.2
  omega

end Entry

theorem dirEntrySize_mod (n : Nat) : dirEntrySize n % 4 = 0 := by
  rw [dirEntrySize_eq]
  exact Nat.mul_mod_left _ _

theorem dirEntrySize_ge (n : Nat) : minDirEntrySize + n ≤ dirEntrySize n := by
  rw [dirEntrySize_eq, minDirEntrySize]
  omega

/-- The bytes of a block say that there is this record. -/
structure EntryAt (b : Buf) (e : Entry) : Prop where
  ino : (ld32 false b e.off).toNat = e.ino
  len : (ld16 false b (e.off + 4)).toNat = e.len
  nameLen : (b (e.off + 6)).toNat = e.name.length
  name : getBytes b (e.off + minDirEntrySize) e.name.length = e.name

/-- From `lo` to `hi` the block is a row of entries. -/
structure Tiled (b : Buf) (lo hi : Nat) (es : List Entry) : Prop where
  row : Row Entry.off Entry.len lo hi es
  entry : ∀ e ∈ es, EntryAt b e
  fits : ∀ e ∈ es, e.Fits

section Entries

variable {b b' : Buf} {e e' : Entry} {lo hi : Nat} {es pre mid post : List Entry}

theorem EntryAt.name_le (h : EntryAt b e) : e.name.length ≤ nameMax := by
  rw [← h.nameLen]
  exact Nat.le_of_lt_succ (b (e.off + 6)).toNat_lt

theorem EntryAt.live_iff (h : EntryAt b e) : ld32 false b e.off ≠ 0 ↔ e.ino ≠ 0 := by
  rw [← h.ino, ne_eq, ne_eq, ← UInt32.toNat_inj]
  rfl

/-- A record is what its bytes are. -/
theorem EntryAt.congr (h : EntryAt b e) (hb : AgreeOn e.off (e.off + e.need) b b') :
    EntryAt b' e := by
  have hneed := e.need_ge
  have hmin : minDirEntrySize = 8 := rfl
  refine ⟨?_, ?_, ?_, ?_⟩
  · rw [ld32_congr (hb.mono (Nat.le_refl _) (by omega)), h.ino]
  · rw [ld16_congr (hb.mono (by omega) (by omega)), h.len]
  · rw [hb _ (by omega) (by omega), h.nameLen]
  · rw [getBytes_congr (hb.mono (by omega) (by omega)), h.name]

theorem EntryAt.eq_of_off (h : EntryAt b e) (h' : EntryAt b e') (hoff : e.off = e'.off) :
    e = e' := by
  have hname : e.name.length = e'.name.length := by rw [← h.nameLen, hoff, h'.nameLen]
  refine Entry.ext hoff ?_ ?_ ?_
  · rw [← h.len, hoff, h'.len]
  · rw [← h.ino, hoff, h'.ino]
  · rw [← h.name, hoff, hname, h'.name]

theorem Tiled.unique {es' : List Entry} (h : Tiled b lo hi es) (h' : Tiled b lo hi es') :
    es = es' :=
  row_unique (fun _ _ => EntryAt.eq_of_off) h.row h'.row h.entry h'.entry

theorem Tiled.congr (h : Tiled b lo hi es) (hb : AgreeOn lo hi b b') : Tiled b' lo hi es := by
  refine ⟨h.row, fun e he => ?_, h.fits⟩
  have hin := h.row.bounds he
  have hfit := (h.fits e he).2
  exact (h.entry e he).congr (hb.mono hin.1 (by omega))

theorem Tiled.bounds (h : Tiled b lo hi es) (he : e ∈ es) :
    lo ≤ e.off ∧ e.off + e.need ≤ e.off + e.len ∧ e.off + e.len ≤ hi := by
  have hin := h.row.bounds he
  have hfit := (h.fits e he).2
  omega

/-- Where the records in the middle of a row are changed, the row has others there. -/
theorem Tiled.exchange (mid mid' : List Entry) {p q : Nat}
    (h : Tiled b lo hi (pre ++ (mid ++ post)))
    (hpre : Row Entry.off Entry.len lo p pre) (hpost : Row Entry.off Entry.len q hi post)
    (hmid : Row Entry.off Entry.len p q mid')
    (hsame : ∀ i, i < p ∨ q ≤ i → b' i = b i)
    (hentry : ∀ e ∈ mid', EntryAt b' e) (hfits : ∀ e ∈ mid', e.Fits) :
    Tiled b' lo hi (pre ++ (mid' ++ post)) := by
  refine ⟨hpre.join hmid hpost, fun e he => ?_, fun e he => ?_⟩
  · rcases List.mem_append.mp he with hin | he
    · have hold : e ∈ pre ++ (mid ++ post) := List.mem_append_left _ hin
      have hbounds := hpre.bounds hin
      have hfit := (h.fits e hold).2
      exact (h.entry e hold).congr fun i h1 h2 => hsame i (.inl (by omega))
    · rcases List.mem_append.mp he with hin | hin
      · exact hentry e hin
      · have hold : e ∈ pre ++ (mid ++ post) :=
          List.mem_append_right _ (List.mem_append_right _ hin)
        have hbounds := hpost.bounds hin
        exact (h.entry e hold).congr fun i h1 h2 => hsame i (.inr (by omega))
  · rcases List.mem_append.mp he with hin | he
    · exact h.fits e (List.mem_append_left _ hin)
    · rcases List.mem_append.mp he with hin | hin
      · exact hfits e hin
      · exact h.fits e (List.mem_append_right _ (List.mem_append_right _ hin))

end Entries

/-! ## A walk over the row -/

section Walk

variable {α : Type} {v : Volume} {b : Buf} {all : List Entry}
  {body : Option Nat → Nat → Except Fault (Option α)} {g : Option Entry → Entry → Option α}

/-- From the record at `lo` on, a walk over the block is one over the row. -/
theorem walkRecords_tiled (hbe : v.beCpu = false)
    (hbody : ∀ prev, ∀ e ∈ all, (∀ p, prev = some p → p ∈ all ∧ p.off + p.len = e.off) →
      body (prev.map Entry.off) e.off = .ok (g prev e))
    (fuel : Nat) : ∀ (lo : Nat) (prev : Option Entry) (es : List Entry),
      Tiled b lo v.blockSize es → (∀ p, prev = some p → p ∈ all ∧ p.off + p.len = lo) →
      (∀ e ∈ es, e ∈ all) → v.blockSize - lo < fuel →
      walkRecords v b body fuel (prev.map Entry.off) lo = .ok (pick g prev es) := by
  -- by the fuel, the rest of the block getting smaller with every record
  induction fuel with
  | zero => exact fun _ _ _ _ _ _ h => absurd h (Nat.not_lt_zero _)
  | succ fuel ih =>
    intro lo prev es ht hprev hall hfuel
    have hmin : minDirEntrySize = 8 := rfl
    rw [walkRecords]
    cases es with
    | nil =>
      have hlo : lo = v.blockSize := ht.row
      rw [if_neg (by omega)]
      rfl
    | cons e es =>
      obtain ⟨hoff, hpos, hrow⟩ := ht.row
      have hin := ht.bounds List.mem_cons_self
      have hneed := e.need_ge
      have hmem := hall e List.mem_cons_self
      subst hoff
      rw [if_pos (by omega), if_neg (by omega), bind_of_ok (hbody prev e hmem hprev)]
      cases hg : g prev e with
      | some a =>
        rw [pick_stop hg]
        rfl
      | none =>
        rw [pick_pass hg]
        -- the record leads to the next one of the row
        have hnext : nextPos v.beCpu b e.off = e.off + e.len := by
          rw [hbe, nextPos, (ht.entry e List.mem_cons_self).len]
        show walkRecords v b body fuel (some e.off) (nextPos v.beCpu b e.off) = _
        rw [hnext]
        exact ih (e.off + e.len) (some e) es
          ⟨hrow, fun x hx => ht.entry x (List.mem_cons_of_mem _ hx),
            fun x hx => ht.fits x (List.mem_cons_of_mem _ hx)⟩
          (fun p hp => by cases hp; exact ⟨hmem, rfl⟩)
          (fun x hx => hall x (List.mem_cons_of_mem _ hx)) (by omega)

theorem walkBlock_tiled (hbe : v.beCpu = false) (ht : Tiled b 0 v.blockSize all)
    (hbody : ∀ prev, ∀ e ∈ all, (∀ p, prev = some p → p ∈ all ∧ p.off + p.len = e.off) →
      body (prev.map Entry.off) e.off = .ok (g prev e)) :
    walkBlock v b body = .ok (pick g none all) :=
  walkRecords_tiled hbe hbody _ 0 none all ht (fun _ h => (nomatch h)) (fun _ h => h)
    (by omega)

end Walk

/-! ## Names -/

section Names

variable {v : Volume} {b : Buf} {e : Entry} {es : List Entry}

theorem getBytes_cons (b : Buf) (o n : Nat) : getBytes b o (n + 1) = b o :: getBytes b (o + 1) n := by
  unfold getBytes
  rw [List.range_succ_eq_map, List.map_cons, List.map_map, Nat.add_zero]
  refine congrArg _ (List.map_congr_left fun k _ => congrArg b ?_)
  show o + (k + 1) = o + 1 + k
  omega

theorem strcmpNzLoop_eq {size : Nat} (n : Nat) : ∀ (o : Nat) (s2 : List UInt8), o + n ≤ size →
    strcmpNzLoop size b n o s2 = .ok (decide (getBytes b o n = s2)) := by
  induction n with
  | zero =>
    intro o s2 _
    cases s2 <;> rfl
  | succ n ih =>
    intro o s2 hin
    cases s2 with
    | nil =>
      rw [getBytes_cons, strcmpNzLoop]
      simp
    | cons c s2 =>
      rw [getBytes_cons, strcmpNzLoop, if_neg (by omega)]
      by_cases hc : b o = c
      · rw [if_pos hc, ih (o + 1) s2 (by omega)]
        simp [hc]
      · rw [if_neg hc]
        simp [hc]

/-- A record is taken for one of a name if it has that name, or none. -/
theorem EntryAt.matchName (h : EntryAt b e) (hin : e.off + e.need ≤ v.blockSize)
    (name : List UInt8) :
    matchName v b e.off name = .ok (decide (e.name = [] ∨ e.name = name)) := by
  have hneed := e.need_ge
  rw [Ext2.matchName, strcmpNz, Ext2.nameLen, h.nameLen]
  by_cases h0 : e.name.length = 0
  · rw [if_pos h0, decide_eq_true (.inl (List.eq_nil_of_length_eq_zero h0))]
  · have hne : e.name ≠ [] := fun hnil => h0 (by rw [hnil]; rfl)
    rw [if_neg h0, strcmpNzLoop_eq _ _ _ (by omega), h.name]
    simp [hne]

/-- `lookup_dir_block` finds the first entry that answers to the name. -/
theorem lookupDirBlock_tiled (hbe : v.beCpu = false) (ht : Tiled b 0 v.blockSize es)
    (name : List UInt8) :
    lookupDirBlock v b name =
      .ok (pick (fun _ e => if e.Answers name then some e.ino else none) none es) := by
  refine walkBlock_tiled hbe ht fun _ e he _ => ?_
  have hat := ht.entry e he
  have hin := ht.bounds he
  rw [hbe, dIno]
  by_cases h0 : e.ino = 0
  · rw [if_neg (by rw [hat.live_iff]; exact not_not_intro h0), if_neg fun h => h.1 h0]
  · rw [if_pos (hat.live_iff.mpr h0), bind_of_ok (hat.matchName (by omega) name)]
    by_cases hm : e.name = [] ∨ e.name = name
    · rw [decide_eq_true hm, if_pos rfl, if_pos (show e.Answers name from ⟨h0, hm⟩)]
      show Except.ok (some (ld32 false b e.off).toNat) = _
      rw [hat.ino]
    · rw [decide_eq_false hm, if_neg (by decide), if_neg fun h => hm h.2]
      rfl

end Names

/-! ## Insertions -/

/-- What a row becomes when a name goes into an entry, or behind it. -/
inductive Entered (ino : Nat) (name : List UInt8) : List Entry → List Entry → Prop where
  | intro {pre post : List Entry} {e : Entry} (hroom : e.Room (dirEntrySize name.length)) :
      Entered ino name (pre ++ e :: post) (pre ++ (e.put ino name ++ post))

/-- The block with the record of `e` cut down to its size, as `shrink_dir_entry` does. -/
def Entry.shrink (b : Buf) (e : Entry) : Buf :=
  let b := st16 false b (e.off + 4) (UInt16.ofNat e.need)
  let b := st16 false b (e.off + e.need + 4) (UInt16.ofNat (e.len - e.need))
  st32 false b (e.off + e.need) 0

section Enter

variable {v : Volume} {b : Buf} {e : Entry} {es : List Entry}

/-- Filling a record leaves an entry of that name there. -/
theorem fillDirent_entry (hbe : v.beCpu = false) {o len ino : Nat} {name : List UInt8}
    (hlen : (ld16 false b (o + 4)).toNat = len) (hin : o + minDirEntrySize + name.length ≤ v.blockSize)
    (hname : name.length ≤ nameMax) (hino : ino < 2 ^ 32) (mode : UInt16) :
    ∃ b', fillDirent v b o ino name mode = .ok b' ∧ EntryAt b' ⟨o, len, ino, name⟩ ∧
      ∀ i, i < o ∨ o + minDirEntrySize + name.length ≤ i → b' i = b i := by
  have hmin : minDirEntrySize = 8 := rfl
  have hmax : nameMax = 255 := rfl
  rw [fillDirent, if_neg (by omega), hbe]
  -- the file type is the only byte that may or may not be stored
  have htype : ∀ c : Buf, ∀ i, i ≠ o + 7 →
      (if v.hasFiletype then st8 c (o + 7) (direntFileType mode) else c) i = c i := by
    intro c i hi
    split
    · exact st8_apply_ne hi
    · rfl
  refine ⟨_, rfl, ⟨?_, ?_, ?_, ?_⟩, fun i hi => ?_⟩
  · refine (congrArg UInt32.toNat (ld32_congr (b := st32 false b o (UInt32.ofNat ino))
      fun i (h1 : o ≤ i) (h2 : i < o + 4) => ?_)).trans ?_
    · rw [stBytes_apply_ne (by omega), htype _ _ (by omega), st8_apply_ne (by omega)]
      rfl
    · rw [ld32_st32, UInt32.toNat_ofNat', Nat.mod_eq_of_lt hino]
  · refine (congrArg UInt16.toNat (ld16_congr (b := b)
      fun i (h1 : o + 4 ≤ i) (h2 : i < o + 4 + 2) => ?_)).trans hlen
    rw [stBytes_apply_ne (by omega), htype _ _ (by omega), st8_apply_ne (by omega),
      st32_apply_ne (by omega)]
  · show (stBytes _ _ _ (o + 6)).toNat = name.length
    rw [stBytes_apply_ne (by omega), htype _ _ (by omega), st8_same, UInt8.toNat_ofNat']
    omega
  · show getBytes _ (o + minDirEntrySize) name.length = name
    refine List.ext_getElem (by simp) fun k hk hk' => ?_
    simp only [getBytes, List.getElem_map, List.getElem_range]
    rw [stBytes_apply (by omega) (by omega), Nat.add_sub_cancel_left]
    exact List.getD_eq_getElem _ _ hk'
  · rw [stBytes_apply_ne (by omega), htype _ _ (by omega), st8_apply_ne (by omega),
      st32_apply_ne (by omega)]

/-- The two records after a cut. -/
theorem Entry.shrink_spec (hat : EntryAt b e) (hlen : e.len < 2 ^ 16)
    (hroom : e.need + minDirEntrySize ≤ e.len) :
    EntryAt (e.shrink b) ⟨e.off, e.need, e.ino, e.name⟩ ∧
      (ld16 false (e.shrink b) (e.off + e.need + 4)).toNat = e.len - e.need ∧
      ∀ i, i < e.off ∨ e.off + e.len ≤ i → e.shrink b i = b i := by
  have hmin : minDirEntrySize = 8 := rfl
  have hneed := e.need_ge
  have hsame : ∀ i, i < e.off + 4 ∨ (e.off + 6 ≤ i ∧ i < e.off + e.need) ∨
      e.off + e.need + 6 ≤ i → e.shrink b i = b i := by
    intro i hi
    rw [Entry.shrink, st32_apply_ne (by omega), st16_apply_ne (by omega), st16_apply_ne (by omega)]
  refine ⟨⟨?_, ?_, ?_, ?_⟩, ?_, fun i hi => hsame i (by omega)⟩
  · show (ld32 false (e.shrink b) e.off).toNat = e.ino
    rw [ld32_congr (b := b) fun i h1 h2 => hsame i (by omega), hat.ino]
  · show (ld16 false (e.shrink b) (e.off + 4)).toNat = e.need
    rw [Entry.shrink, ld16_st32_ne (by omega), ld16_st16_ne (by omega), ld16_st16,
      UInt16.toNat_ofNat', Nat.mod_eq_of_lt (by omega)]
  · show (e.shrink b (e.off + 6)).toNat = e.name.length
    rw [hsame _ (by omega), hat.nameLen]
  · show getBytes (e.shrink b) (e.off + minDirEntrySize) e.name.length = e.name
    rw [getBytes_congr (b := b) fun i h1 h2 => hsame i (by omega), hat.name]
  · rw [Entry.shrink, ld16_st32_ne (by omega), ld16_st16, UInt16.toNat_ofNat',
      Nat.mod_eq_of_lt (by omega)]

theorem shrinkDirEntry_eq (hbe : v.beCpu = false) (hat : EntryAt b e) (hlen : e.len < 2 ^ 16)
    (hin : e.off + e.len ≤ v.blockSize) (hroom : e.need + minDirEntrySize ≤ e.len) :
    shrinkDirEntry v b e.off = .ok (e.shrink b, e.off + e.need) := by
  have hsize : dirEntrySize (nameLen b e.off) = e.need := by rw [nameLen, hat.nameLen, Entry.need]
  have hold : recLen false b e.off = e.len := hat.len
  have hnew : nextPos false (st16 false b (e.off + 4) (UInt16.ofNat e.need)) e.off =
      e.off + e.need := by
    rw [nextPos, ld16_st16, UInt16.toNat_ofNat', Nat.mod_eq_of_lt (by omega)]
  rw [shrinkDirEntry, hbe, hsize, hold]
  simp only [bswap2, Bool.not_false, if_true]
  rw [hnew, if_neg (by omega), show (e.len + 2 ^ 16 - e.need) % 2 ^ 16 = e.len - e.need by omega]
  rfl

/-- `find_dirent_free_space` takes the first entry with room. -/
theorem findDirentFreeSpace_tiled (hbe : v.beCpu = false) (hbs : v.blockSize < 2 ^ 16)
    (ht : Tiled b 0 v.blockSize es) {required : Nat} (hreq : minDirEntrySize ≤ required) :
    findDirentFreeSpace v b required =
      .ok (pick (fun _ e => if e.Free required then some (b, e.off)
        else if e.Room required then some (e.shrink b, e.off + e.need) else none) none es) := by
  refine walkBlock_tiled hbe ht fun _ e he _ => ?_
  have hat := ht.entry e he
  have hin := ht.bounds he
  have hsize : dirEntrySize (nameLen b e.off) = e.need := by rw [nameLen, hat.nameLen, Entry.need]
  have hold : recLen false b e.off = e.len := hat.len
  have hfree : dIno false b e.off = 0 ↔ e.ino = 0 := not_iff_not.mp hat.live_iff
  rw [hbe]
  simp only [hsize, hold, hfree]
  by_cases hf : e.Free required
  · rw [if_pos hf, if_pos (show e.ino = 0 ∧ required ≤ e.len from hf)]
  · rw [if_neg hf, if_neg (show ¬(e.ino = 0 ∧ required ≤ e.len) from hf)]
    by_cases hr : e.need + required ≤ e.len
    · rw [if_pos (by omega), if_pos (show e.Room required from .inr hr),
        shrinkDirEntry_eq hbe hat (by omega) (by omega) (by omega)]
      rfl
    · rw [if_neg (by omega), if_neg (show ¬ e.Room required from not_or_intro hf hr)]

/-- A name goes into the first entry with room for it, or behind it. -/
theorem dirEnter_tiled (hbe : v.beCpu = false) (hbs : v.blockSize < 2 ^ 16)
    (ht : Tiled b 0 v.blockSize es) {name : List UInt8} (hname : name.length ≤ nameMax) {ino : Nat}
    (hino : ino < 2 ^ 32) (mode : UInt16) :
    (findDirentFreeSpace v b (dirEntrySize name.length) = .ok none ∧
      ∀ e ∈ es, ¬ e.Room (dirEntrySize name.length)) ∨
    ∃ b₁ o b₂ es', findDirentFreeSpace v b (dirEntrySize name.length) = .ok (some (b₁, o)) ∧
      fillDirent v b₁ o ino name mode = .ok b₂ ∧ Entered ino name es es' ∧
      Tiled b₂ 0 v.blockSize es' := by
  have hmin : minDirEntrySize = 8 := rfl
  have hreq := dirEntrySize_ge name.length
  rw [findDirentFreeSpace_tiled hbe hbs ht (by omega)]
  cases hp : pick _ none es with
  | none =>
    refine .inl ⟨rfl, fun e he hr => ?_⟩
    have h := pick_eq_none.mp hp e he
    by_cases hf : e.Free (dirEntrySize name.length)
    · rw [if_pos hf] at h
      cases h
    · rw [if_neg hf, if_pos hr] at h
      cases h
  | some r =>
    obtain ⟨pre, e, post, rfl, hstop, -⟩ := pick_eq_some hp
    have hmem : e ∈ pre ++ e :: post := List.mem_append_right _ List.mem_cons_self
    have hat := ht.entry e hmem
    have hfit := ht.fits e hmem
    have hin := ht.bounds hmem
    obtain ⟨hrow, hpos, hrow'⟩ := ht.row.cut
    refine .inr ⟨r.1, r.2, ?_⟩
    by_cases hf : e.Free (dirEntrySize name.length)
    · rw [if_pos hf] at hstop
      cases hstop
      -- a free record is taken over as it is
      have hle := hf.2
      have hroom : e.off + minDirEntrySize + name.length ≤ v.blockSize := by omega
      obtain ⟨b₂, hfill, hat₂, hsame⟩ := fillDirent_entry hbe hat.len hroom hname hino mode
      refine ⟨b₂, _, rfl, hfill, .intro (.inl hf), ?_⟩
      rw [Entry.put, if_pos hf]
      refine Tiled.exchange [e] [_] ht hrow hrow' ⟨rfl, hpos, rfl⟩
        (fun i hi => hsame i (by omega)) ?_ ?_
      · exact List.forall_mem_singleton.mpr hat₂
      · exact List.forall_mem_singleton.mpr ⟨hfit.1, hle⟩
    · rw [if_neg hf] at hstop
      by_cases hr : e.Room (dirEntrySize name.length)
      · rw [if_pos hr] at hstop
        cases hstop
        -- the record is cut down to what its name needs, and the rest becomes one of its own
        have hle := hr.resolve_left hf
        obtain ⟨hold, hlen, hsame₁⟩ := Entry.shrink_spec hat (by omega) (by omega)
        have hroom : e.off + e.need + minDirEntrySize + name.length ≤ v.blockSize := by omega
        obtain ⟨b₂, hfill, hat₂, hsame⟩ := fillDirent_entry hbe hlen hroom hname hino mode
        refine ⟨b₂, _, rfl, hfill, .intro hr, ?_⟩
        have hmod := dirEntrySize_mod e.name.length
        rw [Entry.put, if_neg hf]
        refine Tiled.exchange [e] [_, _] ht hrow hrow'
          ⟨rfl, ?_, rfl, ?_, ?_⟩ (fun i hi => ?_) ?_ ?_
        · show 0 < e.need
          have := e.need_ge
          omega
        · show 0 < e.len - e.need
          omega
        · show e.off + e.need + (e.len - e.need) = e.off + e.len
          omega
        · rw [hsame i (by omega), hsame₁ i (by omega)]
        · refine List.forall_mem_cons.mpr ⟨hold.congr fun i h1 h2 => hsame i (.inl h2), ?_⟩
          exact List.forall_mem_singleton.mpr hat₂
        · have hdvd := hfit.1
          refine List.forall_mem_cons.mpr ⟨⟨hmod, Nat.le_refl _⟩, ?_⟩
          refine List.forall_mem_singleton.mpr ⟨?_, ?_⟩
          · show (e.len - e.need) % 4 = 0
            rw [Entry.need] at hle ⊢
            omega
          · show dirEntrySize name.length ≤ e.len - e.need
            omega
      · rw [if_neg hr] at hstop
        cases hstop

end Enter

/-! ## Deletions -/

/-- What a row becomes when the first entry that answers to a name is deleted: the
first of the block is free then, another one is part of the entry before it. -/
inductive Deleted (name : List UInt8) : List Entry → List Entry → Prop where
  | first {e : Entry} {post : List Entry} {scribbled : List UInt8} (h : e.Answers name)
      (hlen : scribbled.length = e.name.length) :
      Deleted name (e :: post) (⟨e.off, e.len, 0, scribbled⟩ :: post)
  | merge {pre post : List Entry} {p e : Entry} (h : e.Answers name)
      (hpre : ∀ x ∈ pre ++ [p], ¬ x.Answers name) :
      Deleted name (pre ++ p :: e :: post) (pre ++ ⟨p.off, p.len + e.len, p.ino, p.name⟩ :: post)

/-- The block with the record of `e` deleted, `prev` being the one before it. -/
def Entry.clear (v : Volume) (b : Buf) (prev : Option Entry) (e : Entry) : Buf :=
  let t := e.off + minDirEntrySize + (e.name.length - v.sizeofIno)
  let b := if v.sizeofIno ≤ e.name.length then stBytes b t (getBytes b e.off 4) else b
  let b := st32 false b e.off 0
  match prev with
  | none => b
  | some p => st16 false b (p.off + 4) (UInt16.ofNat (p.len + e.len))

section Delete

variable {v : Volume} {b : Buf} {p e : Entry} {es pre post : List Entry}

theorem clearDirent_eq (hbe : v.beCpu = false) (hsize : 4 ≤ v.sizeofIno) (hat : EntryAt b e)
    (hin : e.off + e.need ≤ v.blockSize) {prev : Option Entry}
    (hprev : ∀ p, prev = some p → EntryAt b p ∧ p.off + p.need ≤ e.off ∧ p.len + e.len < 2 ^ 16) :
    clearDirent v b e.off (prev.map Entry.off) = .ok (e.clear v b prev) := by
  have hmin : minDirEntrySize = 8 := rfl
  have hneed := e.need_ge
  have hname : nameLen b e.off = e.name.length := hat.nameLen
  rw [clearDirent, hname, if_neg (by omega), hbe]
  cases prev with
  | none => rfl
  | some p =>
    obtain ⟨hp, hle, hlt⟩ := hprev p rfl
    have hpneed := p.need_ge
    -- what is stored first is not in the members that are loaded here
    have hload : ∀ c : Buf, (∀ i, i < e.off + minDirEntrySize → c i = b i) → ∀ o,
        o + 6 ≤ e.off + minDirEntrySize → o + 6 ≤ e.off ∨ e.off ≤ o →
        recLen false (st32 false c e.off 0) o = recLen false b o := by
      intro c hc o ho hor
      show (ld16 false (st32 false c e.off 0) (o + 4)).toNat = (ld16 false b (o + 4)).toNat
      rw [ld16_congr (b := b) fun i h1 h2 => ?_]
      by_cases hi : i < e.off ∨ e.off + 4 ≤ i
      · rw [st32_apply_ne hi, hc i (by omega)]
      · omega
    have hscribble : ∀ i, i < e.off + minDirEntrySize →
        (if v.sizeofIno ≤ e.name.length then
          stBytes b (e.off + minDirEntrySize + (e.name.length - v.sizeofIno)) (getBytes b e.off 4)
        else b) i = b i := by
      intro i hi
      split
      · exact stBytes_apply_ne (.inl (by omega))
      · rfl
    simp only [Option.map_some]
    rw [hload _ hscribble p.off (by omega) (by omega), hload _ hscribble e.off (by omega) (by omega),
      show recLen false b p.off = p.len from hp.len, show recLen false b e.off = e.len from hat.len,
      Nat.mod_eq_of_lt hlt]
    rfl

/-- What deleting leaves as it is: everything but the record, and the length of the one before. -/
theorem Entry.clear_apply (hsize : 4 ≤ v.sizeofIno) (hneed : e.need ≤ e.len) {prev : Option Entry}
    {i : Nat} (hi : i < e.off ∨ e.off + e.len ≤ i)
    (hp : ∀ p, prev = some p → i < p.off + 4 ∨ p.off + 6 ≤ i) : e.clear v b prev i = b i := by
  have hmin : minDirEntrySize = 8 := rfl
  have hge := e.need_ge
  have hmark : ∀ c : Buf, c i = b i → st32 false c e.off 0 i = b i := by
    intro c hc
    rw [st32_apply_ne (by omega), hc]
  have hscribble : (if v.sizeofIno ≤ e.name.length then
      stBytes b (e.off + minDirEntrySize + (e.name.length - v.sizeofIno)) (getBytes b e.off 4)
      else b) i = b i := by
    split
    · exact stBytes_apply_ne (by rw [getBytes_length]; omega)
    · rfl
  cases prev with
  | none => exact hmark _ hscribble
  | some p =>
    refine Eq.trans (st16_apply_ne ?_) (hmark _ hscribble)
    have := hp p rfl
    omega

/-- The first record of a block is free once it is deleted. -/
theorem Entry.clear_first (hat : EntryAt b e) :
    EntryAt (e.clear v b none) ⟨e.off, e.len, 0,
      getBytes (e.clear v b none) (e.off + minDirEntrySize) e.name.length⟩ := by
  have hmin : minDirEntrySize = 8 := rfl
  have hsame : ∀ i, e.off + 4 ≤ i → i < e.off + minDirEntrySize → e.clear v b none i = b i := by
    intro i h1 h2
    show st32 false _ e.off 0 i = b i
    rw [st32_apply_ne (.inr h1)]
    split
    · exact stBytes_apply_ne (.inl (by omega))
    · rfl
  refine ⟨?_, ?_, ?_, ?_⟩
  · show (ld32 false (st32 false _ e.off 0) e.off).toNat = 0
    rw [ld32_st32]
    rfl
  · refine (congrArg UInt16.toNat (ld16_congr (b := b)
      fun i (h1 : e.off + 4 ≤ i) (h2 : i < e.off + 4 + 2) => ?_)).trans hat.len
    exact hsame i h1 (by omega)
  · show (e.clear v b none (e.off + 6)).toNat = (getBytes _ _ e.name.length).length
    rw [getBytes_length, hsame _ (by omega) (by omega), hat.nameLen]
  · show getBytes _ _ (getBytes _ _ e.name.length).length = _
    rw [getBytes_length]

/-- The record before one that is deleted gets its bytes. -/
theorem Entry.clear_merge (hsize : 4 ≤ v.sizeofIno) (hneed : e.need ≤ e.len) (hp : EntryAt b p)
    (hle : p.off + p.need ≤ e.off) (hlt : p.len + e.len < 2 ^ 16) :
    EntryAt (e.clear v b (some p)) ⟨p.off, p.len + e.len, p.ino, p.name⟩ := by
  have hmin : minDirEntrySize = 8 := rfl
  have hge := p.need_ge
  have hsame : ∀ i, i < e.off → (i < p.off + 4 ∨ p.off + 6 ≤ i) →
      e.clear v b (some p) i = b i := by
    intro i h1 h2
    exact Entry.clear_apply hsize hneed (.inl h1) fun q hq => by cases hq; exact h2
  refine ⟨?_, ?_, ?_, ?_⟩
  · refine (congrArg UInt32.toNat (ld32_congr (b := b)
      fun i (h1 : p.off ≤ i) (h2 : i < p.off + 4) => ?_)).trans hp.ino
    exact hsame i (by omega) (.inl h2)
  · show (ld16 false (st16 false _ (p.off + 4) _) (p.off + 4)).toNat = p.len + e.len
    rw [ld16_st16, UInt16.toNat_ofNat', Nat.mod_eq_of_lt hlt]
  · show (e.clear v b (some p) (p.off + 6)).toNat = p.name.length
    rw [hsame _ (by omega) (by omega), hp.nameLen]
  · refine (getBytes_congr (b := b)
      fun i (h1 : p.off + minDirEntrySize ≤ i) (h2 : i < p.off + minDirEntrySize + p.name.length) =>
        ?_).trans hp.name
    exact hsame i (by omega) (by omega)

theorem searchBlockAndDelete_tiled (hbe : v.beCpu = false) (hbs : v.blockSize < 2 ^ 16)
    (hsize : 4 ≤ v.sizeofIno) (ht : Tiled b 0 v.blockSize es) (name : List UInt8) :
    searchBlockAndDelete v b name = .ok (pick (fun prev e =>
      if e.Answers name then some (e.clear v b prev) else none) none es) := by
  refine walkBlock_tiled hbe ht fun prev e he hprev => ?_
  have hat := ht.entry e he
  have hin := ht.bounds he
  rw [hbe, dIno]
  by_cases h0 : e.ino = 0
  · rw [if_neg (by rw [hat.live_iff]; exact not_not_intro h0), if_neg fun h => h.1 h0]
  · rw [if_pos (hat.live_iff.mpr h0), bind_of_ok (hat.matchName (by omega) name)]
    by_cases hm : e.name = [] ∨ e.name = name
    · rw [decide_eq_true hm, if_pos rfl, if_pos (show e.Answers name from ⟨h0, hm⟩),
        bind_of_ok (clearDirent_eq hbe hsize hat (by omega) fun p hp => ?_)]
      · rfl
      · obtain ⟨hmem, hadj⟩ := hprev p hp
        have hbounds := ht.bounds hmem
        exact ⟨ht.entry p hmem, by omega, by omega⟩
    · rw [decide_eq_false hm, if_neg (by decide), if_neg fun h => hm h.2]
      rfl

/-- `search_block_and_delete` deletes the first entry that answers to the name. -/
theorem dirDelete_tiled (hbe : v.beCpu = false) (hbs : v.blockSize < 2 ^ 16)
    (hsize : 4 ≤ v.sizeofIno) (ht : Tiled b 0 v.blockSize es) (name : List UInt8) :
    (searchBlockAndDelete v b name = .ok none ∧ ∀ e ∈ es, ¬ e.Answers name) ∨
    ∃ b' es', searchBlockAndDelete v b name = .ok (some b') ∧ Deleted name es es' ∧
      Tiled b' 0 v.blockSize es' := by
  rw [searchBlockAndDelete_tiled hbe hbs hsize ht]
  -- the records that are gone past do not answer to the name
  have hpass : ∀ l : List Entry, pick (fun prev e =>
      if e.Answers name then some (e.clear v b prev) else none) none l = none →
      ∀ e ∈ l, ¬ e.Answers name := by
    intro l hl e he ha
    have hsome : (pick (fun prev e =>
        if e.Answers name then some (Entry.clear v b prev e) else none) none l).isSome =
        (pick (fun _ e => if e.Answers name then some () else none) none l).isSome := by
      refine pick_isSome fun prev e => ?_
      by_cases h : e.Answers name
      · rw [if_pos h, if_pos h]
        rfl
      · rw [if_neg h, if_neg h]
        rfl
    rw [hl] at hsome
    have hnone := pick_eq_none.mp (Option.isNone_iff_eq_none.mp (by simpa using hsome.symm)) e he
    rw [if_pos ha] at hnone
    cases hnone
  cases hp : pick _ none es with
  | none => exact .inl ⟨rfl, hpass es hp⟩
  | some b' =>
    obtain ⟨pre, e, post, rfl, hstop, hpre⟩ := pick_eq_some hp
    have hmem : e ∈ pre ++ e :: post := List.mem_append_right _ List.mem_cons_self
    have hat := ht.entry e hmem
    have hfit := ht.fits e hmem
    have hin := ht.bounds hmem
    obtain ⟨hrow, hpos, hrow'⟩ := ht.row.cut
    by_cases ha : e.Answers name
    · rw [if_pos ha] at hstop
      cases hstop
      refine .inr ?_
      rcases List.eq_nil_or_concat pre with rfl | ⟨pre, p, rfl⟩
      · -- the first record of the block is only marked free, and its name scribbled over
        refine ⟨_, _, rfl, .first ha
          (getBytes_length (e.clear v b none) (e.off + minDirEntrySize) e.name.length), ?_⟩
        refine Tiled.exchange [e] [_] ht hrow hrow' ⟨rfl, hpos, rfl⟩
          (fun i hi => Entry.clear_apply hsize hfit.2 hi fun p hp => (nomatch hp)) ?_ ?_
        · exact List.forall_mem_singleton.mpr (Entry.clear_first hat)
        · refine List.forall_mem_singleton.mpr ⟨hfit.1, ?_⟩
          show dirEntrySize (getBytes _ _ _).length ≤ e.len
          rw [getBytes_length]
          exact hfit.2
      · -- any other goes into the one before it, whose length grows over it
        rw [List.concat_eq_append] at *
        rw [before_concat]
        have hmem' : p ∈ pre ++ [p] ++ e :: post :=
          List.mem_append_left _ (List.mem_append_right _ (List.mem_singleton_self p))
        have hfit' := ht.fits p hmem'
        have hin' := ht.bounds hmem'
        obtain ⟨hrow₁, hposp, hadj⟩ := hrow.cut
        have hadj : p.off + p.len = e.off := hadj
        rw [List.append_assoc, List.singleton_append] at ht ⊢
        refine ⟨_, _, rfl, .merge ha (hpass _ hpre), ?_⟩
        refine Tiled.exchange [p, e] [_] ht hrow₁ hrow'
          ⟨rfl, ?_, ?_⟩ (fun i hi => ?_) ?_ ?_
        · show 0 < p.len + e.len
          omega
        · show p.off + (p.len + e.len) = e.off + e.len
          omega
        · have hge := p.need_ge
          have hmin : minDirEntrySize = 8 := rfl
          refine Entry.clear_apply hsize hfit.2 (by omega) fun q hq => ?_
          cases hq
          omega
        · refine List.forall_mem_singleton.mpr ?_
          exact Entry.clear_merge hsize hfit.2 (ht.entry p (by simp)) (by omega) (by omega)
        · refine List.forall_mem_singleton.mpr ⟨?_, ?_⟩
          · have h1 := hfit.1
            have h2 := hfit'.1
            show (p.len + e.len) % 4 = 0
            omega
          · have h2 := hfit'.2
            show p.need ≤ p.len + e.len
            omega
    · rw [if_neg ha] at hstop
      cases hstop

end Delete

/-! ## Entries before and after -/

/-- Two entries that are the same but for the lengths of their records. -/
def Entry.Same (x y : Entry) : Prop := x.off = y.off ∧ x.ino = y.ino ∧ x.name = y.name

theorem Entry.Same.refl (e : Entry) : e.Same e := ⟨rfl, rfl, rfl⟩

section Rows

variable {lo hi ino : Nat} {name : List UInt8} {es es' : List Entry}

/-- An insertion was into a record with room. -/
theorem Entered.room (h : Entered ino name es es') :
    ∃ e ∈ es, e.Room (dirEntrySize name.length) := by
  obtain ⟨hroom⟩ := h
  exact ⟨_, List.mem_append_right _ List.mem_cons_self, hroom⟩

/-- After an insertion the entries are the new one and those that were there, of which
no live one is gone. -/
theorem Entered.spec (h : Entered ino name es es') :
    ∃ f ∈ es', f.ino = ino ∧ f.name = name ∧ (∀ x ∈ es', x = f ∨ ∃ y ∈ es, x.Same y) ∧
      ∀ y ∈ es, y.ino ≠ 0 → ∃ x ∈ es', x.Same y := by
  obtain ⟨hroom⟩ := h
  rename_i pre post e
  have hmem : e ∈ pre ++ e :: post := List.mem_append_right _ List.mem_cons_self
  by_cases hf : e.Free (dirEntrySize name.length)
  · rw [Entry.put, if_pos hf]
    refine ⟨⟨e.off, e.len, ino, name⟩, List.mem_append_right _ List.mem_cons_self, rfl, rfl,
      fun x hx => ?_, fun y hy hlive => ?_⟩
    · rcases List.mem_append.mp hx with hin | hin
      · exact .inr ⟨x, List.mem_append_left _ hin, .refl x⟩
      · rcases List.mem_cons.mp hin with heq | hin
        · exact .inl heq
        · exact .inr ⟨x, List.mem_append_right _ (List.mem_cons_of_mem _ hin), .refl x⟩
    · rcases List.mem_append.mp hy with hin | hin
      · exact ⟨y, List.mem_append_left _ hin, .refl y⟩
      · rcases List.mem_cons.mp hin with heq | hin
        · exact absurd hf.1 (heq ▸ hlive)
        · exact ⟨y, List.mem_append_right _ (List.mem_cons_of_mem _ hin), .refl y⟩
  · rw [Entry.put, if_neg hf]
    refine ⟨⟨e.off + e.need, e.len - e.need, ino, name⟩,
      List.mem_append_right _ (List.mem_cons_of_mem _ List.mem_cons_self), rfl, rfl,
      fun x hx => ?_, fun y hy _ => ?_⟩
    · rcases List.mem_append.mp hx with hin | hin
      · exact .inr ⟨x, List.mem_append_left _ hin, .refl x⟩
      · rcases List.mem_cons.mp hin with heq | hin
        · exact .inr ⟨e, hmem, by rw [heq]; exact ⟨rfl, rfl, rfl⟩⟩
        · rcases List.mem_cons.mp hin with heq | hin
          · exact .inl heq
          · exact .inr ⟨x, List.mem_append_right _ (List.mem_cons_of_mem _ hin), .refl x⟩
    · rcases List.mem_append.mp hy with hin | hin
      · exact ⟨y, List.mem_append_left _ hin, .refl y⟩
      · rcases List.mem_cons.mp hin with heq | hin
        · exact ⟨_, List.mem_append_right _ List.mem_cons_self, by rw [heq]; exact ⟨rfl, rfl, rfl⟩⟩
        · exact ⟨y, List.mem_append_right _ (List.mem_cons_of_mem _ (List.mem_cons_of_mem _ hin)),
            .refl y⟩

/-- After a deletion the entries are those that were there but for the deleted one, and
in its place a free one if it was the first. -/
theorem Deleted.spec (h : Deleted name es es') (hrow : Row Entry.off Entry.len lo hi es) :
    ∃ f ∈ es, f.Answers name ∧ (∀ x ∈ es', (∃ y ∈ es, y ≠ f ∧ x.Same y) ∨
      (x.ino = 0 ∧ x.off = lo)) ∧ ∀ y ∈ es, y ≠ f → ∃ x ∈ es', x.Same y := by
  cases h with
  | @first e post scribbled ha hlen =>
    -- its place has a free record
    obtain ⟨hoff, hpos, hpost⟩ := hrow
    refine ⟨e, List.mem_cons_self, ha, fun x hx => ?_, fun y hy hne => ?_⟩
    · rcases List.mem_cons.mp hx with rfl | hin
      · exact .inr ⟨rfl, hoff⟩
      · have hin' := hpost.bounds hin
        refine .inl ⟨x, List.mem_cons_of_mem _ hin, ?_, .refl x⟩
        rintro rfl
        omega
    · exact ⟨y, List.mem_cons_of_mem _ ((List.mem_cons.mp hy).resolve_left hne), .refl y⟩
  | @merge pre post p e ha hpre =>
    -- its place is part of the record before, which is otherwise as it was
    have hcut := hrow
    rw [← List.singleton_append, ← List.append_assoc] at hcut
    obtain ⟨hbefore, hpos, hafter⟩ := hcut.cut
    have hleft : ∀ x ∈ pre ++ [p], x ≠ e := by
      rintro x hx rfl
      have := hbefore.bounds hx
      omega
    have hright : ∀ x ∈ post, x ≠ e := by
      rintro x hx rfl
      have := hafter.bounds hx
      omega
    refine ⟨e, by simp, ha, fun x hx => .inl ?_, fun y hy hne => ?_⟩
    · rcases List.mem_append.mp hx with hin | hin
      · exact ⟨x, List.mem_append_left _ hin, hleft x (List.mem_append_left _ hin), .refl x⟩
      · rcases List.mem_cons.mp hin with heq | hin
        · exact ⟨p, by simp, hleft p (by simp), by rw [heq]; exact ⟨rfl, rfl, rfl⟩⟩
        · exact ⟨x, by simp [hin], hright x hin, .refl x⟩
    · rcases List.mem_append.mp hy with hin | hin
      · exact ⟨y, List.mem_append_left _ hin, .refl y⟩
      · rcases List.mem_cons.mp hin with heq | hin
        · exact ⟨_, List.mem_append_right _ List.mem_cons_self, by rw [heq]; exact ⟨rfl, rfl, rfl⟩⟩
        · have hin := (List.mem_cons.mp hin).resolve_left hne
          exact ⟨y, List.mem_append_right _ (List.mem_cons_of_mem _ hin), .refl y⟩

end Rows

end Cheviot.Ext2
