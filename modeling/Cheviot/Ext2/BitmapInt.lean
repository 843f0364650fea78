import Cheviot.Ext2.Bitmap

/-!
# `bitmap.c` in the integers of the machine

`allocBit` counts words and bits without a limit. In the source both are numbers of 32
bits, and what `alloc_bit` gives back is an `int`: `w * 32` comes around at word `2 ^ 27`,
the loop has no end where `max_bits` leaves no room for a whole word behind it, and an
index from `2 ^ 31` on is a negative number.

* `allocBitInt`, `clearBitInt` — the two functions in these integers.
* `AllocBitOk` — the first clear bit, set and given back, or -1 where there is none.
* `allocBitInt_ok_iff` — this is what they do exactly where nothing comes around.

Mirroring notes:
- A round of the outer loop looks at one word, and a word of the same number is looked at
  again after `2 ^ 32` rounds; who needs more does not end.
- `1 << (index % 32)` with a negative remainder is undefined, and ends in a fault.
-/

namespace Cheviot.Ext2

open Cheviot.Bytes Cheviot.Bits

/-! ## The functions -/

/-- A number of 32 bits as an `int`. -/
def toInt (n : Nat) : Int := (n : Int).bmod (2 ^ 32)

/-- `w * 32` in 32 bits. -/
def firstBit (w : Nat) : Nat := w * 32 % 2 ^ 32

/-- The inner loop of `alloc_bit`: the first clear bit of a word whose bits begin at `first`. -/
def clearBitOfWord (word : UInt32) (first maxBits : Nat) : Option Nat :=
  (List.range 32).find? fun b => decide (first + b < maxBits) && !hasBit word b

/-- The outer loop of `alloc_bit`, from word `w`, for at most the given number of words. -/
def allocBitRounds (be : Bool) (size : Nat) (bitmap : Buf) (maxBits : Nat) :
    Nat → Nat → Except Fault (Buf × Int)
  | 0, _ => .error .hang
  | n + 1, w =>
    if firstBit w < maxBits then
      if size < 4 * w + 4 then .error .outOfBounds
      else if wordAt be bitmap w = 0xFFFFFFFF then
        allocBitRounds be size bitmap maxBits n ((w + 1) % 2 ^ 32)
      else
        match clearBitOfWord (wordAt be bitmap w) (firstBit w) maxBits with
        | some b =>
          .ok (st32 be bitmap (4 * w) (wordAt be bitmap w ||| mask b), toInt (firstBit w + b))
        | none => allocBitRounds be size bitmap maxBits n ((w + 1) % 2 ^ 32)
    else .ok (bitmap, -1)

/-- `alloc_bit` -/
def allocBitInt (be : Bool) (size : Nat) (bitmap : Buf) (maxBits startWord : UInt32) :
    Except Fault (Buf × Int) :=
  allocBitRounds be size bitmap maxBits.toNat (2 ^ 32) startWord.toNat

/-- `clear_bit` -/
def clearBitInt (be : Bool) (size : Nat) (bitmap : Buf) (index : Int) :
    Except Fault (Buf × Int) :=
  let word := (index.tdiv 32 % 2 ^ 32).toNat
  let bit := index.tmod 32
  if bit < 0 then .error .outOfBounds
  else if size < 4 * word + 4 then .error .outOfBounds
  else if hasBit (wordAt be bitmap word) bit.toNat then
    .ok (st32 be bitmap (4 * word) (wordAt be bitmap word &&& ~~~(mask bit.toNat)), 0)
  else .ok (bitmap, -1)

/-! ## What they are to do -/

section Specs

variable (be : Bool) (size : Nat) (bitmap : Buf)

/-- The least index from `lo` on whose bit is clear. -/
structure FirstClear (maxBits lo i : Nat) : Prop where
  lo_le : lo ≤ i
  lt : i < maxBits
  clear : bitAt be bitmap i = false
  before : ∀ j, lo ≤ j → j < i → bitAt be bitmap j = true

/-- No index from `lo` on has a clear bit. -/
def AllSet (maxBits lo : Nat) : Prop := ∀ i, lo ≤ i → i < maxBits → bitAt be bitmap i = true

/-- `alloc_bit` gives the first clear bit and sets it and no other, or gives -1 and leaves the
bitmap; `clear_bit` undoes this, and refuses a bit that is clear. -/
structure AllocBitOk (maxBits startWord : UInt32) : Prop where
  found : ∀ i, FirstClear be bitmap maxBits.toNat (32 * startWord.toNat) i →
    ∃ bitmap', allocBitInt be size bitmap maxBits startWord = .ok (bitmap', (i : Int)) ∧
      (∀ j, bitAt be bitmap' j = (decide (j = i) || bitAt be bitmap j)) ∧
      clearBitInt be size bitmap' i = .ok (bitmap, 0)
  full : allocBitInt be size bitmap maxBits startWord = .ok (bitmap, -1) ↔
    AllSet be bitmap maxBits.toNat (32 * startWord.toNat)
  clear : ∀ i : Nat, i < 2 ^ 31 → 4 * (i / 32) + 4 ≤ size → bitAt be bitmap i = false →
    clearBitInt be size bitmap i = .ok (bitmap, -1)

/-- A word whose bits the loop counts below `max_bits` is in the bitmap and has none clear. -/
def WordFull (maxBits w : Nat) : Prop :=
  4 * w + 4 ≤ size ∧ ∀ b, b < 32 → firstBit w + b < maxBits → hasBit (wordAt be bitmap w) b = true

/-- From word `w` on, the words are full that the loop comes to before the count comes around. -/
def RestFull (maxBits w : Nat) : Prop :=
  ∀ u, w ≤ u → u / 2 ^ 27 = w / 2 ^ 27 → firstBit u < maxBits → WordFull be size bitmap maxBits u

/-- The first clear bit is the index of an `int`. Where there is none, `max_bits` leaves room for
a word behind it, and the words from the first one on are full whose bits are counted below it. -/
structure NoWrap (maxBits startWord : Nat) : Prop where
  fits : ∀ i, FirstClear be bitmap maxBits (32 * startWord) i → i < 2 ^ 31
  stops : AllSet be bitmap maxBits (32 * startWord) →
    maxBits ≤ 2 ^ 32 - 32 ∧ RestFull be size bitmap maxBits startWord

end Specs

/-! ## The loop -/

section Loop

variable {be : Bool} {size : Nat} {bitmap : Buf} {maxBits : Nat}

theorem firstBit_eq (w : Nat) : firstBit w = w % 2 ^ 27 * 32 := by
  unfold firstBit
  omega

theorem clearBitOfWord_some {word : UInt32} {w b : Nat}
    (h : clearBitOfWord word (firstBit w) maxBits = some b) :
    b < 32 ∧ firstBit w + b < maxBits ∧ hasBit word b = false ∧
      ∀ c, c < b → hasBit word c = true := by
  rw [firstBit_eq] at h ⊢
  exact allocBitInWord_some h

theorem clearBitOfWord_none {word : UInt32} {w b : Nat}
    (h : clearBitOfWord word (firstBit w) maxBits = none) (hb : b < 32)
    (hlt : firstBit w + b < maxBits) : hasBit word b = true := by
  rw [firstBit_eq] at h hlt
  exact allocBitInWord_none h hb hlt

theorem toInt_of_lt {n : Nat} (h : n < 2 ^ 31) : toInt n = n := by
  unfold toInt
  rw [Int.bmod_def]
  omega

theorem toInt_of_le {n : Nat} (h : 2 ^ 31 ≤ n) (hlt : n < 2 ^ 32) : toInt n = (n : Int) - 2 ^ 32 := by
  unfold toInt
  rw [Int.bmod_def]
  omega

theorem toInt_ne {n : Nat} (hlt : n < 2 ^ 32 - 1) : toInt n ≠ -1 := by
  rcases Nat.lt_or_ge n (2 ^ 31) with h | h
  · rw [toInt_of_lt h]
    omega
  · rw [toInt_of_le h (by omega)]
    omega

/-- What a round does: it ends the loop, leaves the bitmap, sets a bit or goes on. -/
theorem allocBitRounds_cases (be : Bool) (size : Nat) (bitmap : Buf) (maxBits n w : Nat) :
    (maxBits ≤ firstBit w ∧
      allocBitRounds be size bitmap maxBits (n + 1) w = .ok (bitmap, -1)) ∨
    (firstBit w < maxBits ∧ size < 4 * w + 4 ∧
      allocBitRounds be size bitmap maxBits (n + 1) w = .error .outOfBounds) ∨
    (firstBit w < maxBits ∧ WordFull be size bitmap maxBits w ∧
      allocBitRounds be size bitmap maxBits (n + 1) w =
        allocBitRounds be size bitmap maxBits n ((w + 1) % 2 ^ 32)) ∨
    ∃ b, b < 32 ∧ firstBit w + b < maxBits ∧ 4 * w + 4 ≤ size ∧
      hasBit (wordAt be bitmap w) b = false ∧
      (∀ c, c < b → hasBit (wordAt be bitmap w) c = true) ∧
      allocBitRounds be size bitmap maxBits (n + 1) w =
        .ok (setBitAt be bitmap (w * 32 + b), toInt (firstBit w + b)) := by
  rw [allocBitRounds]
  by_cases hlt : firstBit w < maxBits
  · rw [if_pos hlt]
    by_cases hsize : size < 4 * w + 4
    · rw [if_pos hsize]
      exact .inr (.inl ⟨hlt, hsize, rfl⟩)
    · rw [if_neg hsize]
      refine .inr (.inr ?_)
      by_cases hones : wordAt be bitmap w = 0xFFFFFFFF
      · rw [if_pos hones]
        exact .inl ⟨hlt, ⟨by omega, fun b hb _ => by rw [hones]; exact hasBit_of_all_ones hb⟩, rfl⟩
      · rw [if_neg hones]
        cases hfind : clearBitOfWord (wordAt be bitmap w) (firstBit w) maxBits with
        | none => exact .inl ⟨hlt, ⟨by omega, fun b => clearBitOfWord_none hfind⟩, rfl⟩
        | some b =>
          obtain ⟨hb, hb', hclear, hbefore⟩ := clearBitOfWord_some hfind
          refine .inr ⟨b, hb, hb', by omega, hclear, hbefore, ?_⟩
          rw [setBitAt, show (w * 32 + b) / 32 = w by omega, show (w * 32 + b) % 32 = b by omega]
  · rw [if_neg hlt]
    exact .inl ⟨by omega, rfl⟩

/-- The rounds before the first clear bit go on, and the one with it ends there. -/
theorem allocBitRounds_found {i : Nat} (hi : i < 2 ^ 32) (hsize : 4 * (i / 32) + 4 ≤ size)
    (hmax : i < maxBits) (hclear : bitAt be bitmap i = false) (n : Nat) : ∀ w, w ≤ i / 32 →
    i / 32 < w + n → (∀ j, w * 32 ≤ j → j < i → bitAt be bitmap j = true) →
    allocBitRounds be size bitmap maxBits n w = .ok (setBitAt be bitmap i, toInt i) := by
  induction n with
  | zero => exact fun w hw hn => absurd hn (by omega)
  | succ n ih =>
    intro w hw hn hbefore
    have hfirst : firstBit w = w * 32 := Nat.mod_eq_of_lt (by omega)
    have hbit : ∀ b, b < 32 → bitAt be bitmap (w * 32 + b) = hasBit (wordAt be bitmap w) b := by
      intro b hb
      rw [bitAt, show (w * 32 + b) / 32 = w by omega, show (w * 32 + b) % 32 = b by omega]
    rcases allocBitRounds_cases be size bitmap maxBits n w with
      ⟨hle, -⟩ | ⟨-, hout, -⟩ | ⟨-, hfull, hrun⟩ | ⟨b, hb, -, -, hzero, hones, hrun⟩
    · exact absurd hle (by omega)
    · exact absurd hout (by omega)
    · rcases Nat.lt_or_ge w (i / 32) with hlt | hge
      · rw [hrun, Nat.mod_eq_of_lt (by omega)]
        exact ih (w + 1) hlt (by omega) fun j hj hji => hbefore j (by omega) hji
      · -- the word of the bit is not full
        have hset := hfull.2 (i % 32) (by omega) (by omega)
        rw [← hbit _ (by omega), show w * 32 + i % 32 = i by omega, hclear] at hset
        cases hset
    · have heq : w * 32 + b = i := by
        rcases Nat.lt_trichotomy (w * 32 + b) i with hlt | heq | hgt
        · have hset := hbefore (w * 32 + b) (by omega) hlt
          rw [hbit b hb, hzero] at hset
          cases hset
        · exact heq
        · have hset := hones (i % 32) (by omega)
          rw [← hbit _ (by omega), show w * 32 + i % 32 = i by omega, hclear] at hset
          cases hset
      rw [hrun, hfirst, heq]

/-- Where the rest is full, the loop ends with -1. -/
theorem allocBitRounds_full (hmax : maxBits ≤ 2 ^ 32 - 32) (n : Nat) : ∀ w, w < 2 ^ 32 →
    2 ^ 27 ≤ w % 2 ^ 27 + n → RestFull be size bitmap maxBits w →
    allocBitRounds be size bitmap maxBits n w = .ok (bitmap, -1) := by
  induction n with
  | zero => exact fun w _ hn => absurd hn (by omega)
  | succ n ih =>
    intro w hw hn hrest
    have hfirst := firstBit_eq w
    rcases allocBitRounds_cases be size bitmap maxBits n w with
      ⟨-, hrun⟩ | ⟨hlt, hout, -⟩ | ⟨hlt, -, hrun⟩ | ⟨b, hb, hlt, -, hzero, -, -⟩
    · exact hrun
    · have hin := (hrest w (Nat.le_refl w) rfl hlt).1
      exact absurd hout (by omega)
    · -- the last word before the count comes around is not below `max_bits`
      rw [hrun, Nat.mod_eq_of_lt (by omega)]
      refine ih (w + 1) (by omega) (by omega) fun u hu hblock => hrest u (by omega) ?_
      omega
    · have hset := (hrest w (Nat.le_refl w) rfl (by omega)).2 b hb hlt
      rw [hzero] at hset
      cases hset

/-- Where the loop ends with -1, the words it has come to were full. -/
theorem allocBitRounds_neg_one (hmax : maxBits < 2 ^ 32) (n : Nat) : ∀ w,
    w < 2 ^ 32 → allocBitRounds be size bitmap maxBits n w = .ok (bitmap, -1) →
    maxBits ≤ 2 ^ 32 - 32 ∧ RestFull be size bitmap maxBits w := by
  induction n with
  | zero => exact fun w _ h => nomatch h
  | succ n ih =>
    intro w hw h
    have hfirst := firstBit_eq w
    rcases allocBitRounds_cases be size bitmap maxBits n w with
      ⟨hle, -⟩ | ⟨-, -, hrun⟩ | ⟨-, hfull, hrun⟩ | ⟨b, hb, hlt, -, -, -, hrun⟩
    · refine ⟨by omega, fun u hu hblock hlt => ?_⟩
      have hu' := firstBit_eq u
      exact absurd hlt (by omega)
    · rw [hrun] at h
      cases h
    · rw [hrun] at h
      obtain ⟨hroom, hrest⟩ := ih _ (Nat.mod_lt _ (by omega)) h
      refine ⟨hroom, fun u hu hblock hlt => ?_⟩
      by_cases huw : u = w
      · rw [huw]
        exact hfull
      · have hnext : (w + 1) % 2 ^ 32 = w + 1 := Nat.mod_eq_of_lt (by omega)
        rw [hnext] at hrest
        exact hrest u (by omega) (by omega) hlt
    · rw [hrun] at h
      simp only [Except.ok.injEq, Prod.mk.injEq] at h
      exact absurd h.2 (toInt_ne (by omega))

/-! ## The bitmaps of a volume -/

/-- What `allocBit` gives, as the source gives it. -/
def allocBitReturn (bitmap : Buf) : Option (Buf × Nat) → Buf × Int
  | some (bitmap', i) => (bitmap', i)
  | none => (bitmap, -1)

/-- What `clearBit` gives, as the source gives it. -/
def clearBitReturn (bitmap : Buf) : Option Buf → Buf × Int
  | some bitmap' => (bitmap', 0)
  | none => (bitmap, -1)

/-- As long as all bits have the index of an `int`, nothing comes around. -/
theorem allocBitRounds_loop (hmax : maxBits ≤ 2 ^ 31) (m : Nat) : ∀ n w, m < n →
    maxBits ≤ (w + m) * 32 → w + m < 2 ^ 27 → allocBitRounds be size bitmap maxBits n w =
      (allocBitLoop be size bitmap maxBits m w).map (allocBitReturn bitmap) := by
  induction m with
  | zero =>
    intro n w hn hend hlt
    obtain ⟨n, rfl⟩ := Nat.exists_eq_succ_of_ne_zero (Nat.ne_of_gt hn)
    -- the loop of the source ends by its own test, with rounds to spare
    have hfirst := firstBit_eq w
    rw [allocBitRounds, if_neg (by omega)]
    rfl
  | succ m ih =>
    intro n w hn hend hlt
    obtain ⟨n, rfl⟩ := Nat.exists_eq_succ_of_ne_zero (show n ≠ 0 by omega)
    -- here the index is the one that is meant, and the two loops take the same turn
    have hfirst : firstBit w = w * 32 := by
      rw [firstBit_eq]
      omega
    have hnext := ih n (w + 1) (by omega) (by omega) (by omega)
    rw [allocBitRounds, allocBitLoop, hfirst, Nat.mod_eq_of_lt (show w + 1 < 2 ^ 32 by omega)]
    by_cases hlt : w * 32 < maxBits
    · rw [if_pos hlt, if_pos hlt]
      by_cases hsize : size < 4 * w + 4
      · rw [if_pos hsize, if_pos hsize]
        rfl
      · rw [if_neg hsize, if_neg hsize]
        by_cases hones : wordAt be bitmap w = 0xFFFFFFFF
        · rw [if_pos hones, if_pos hones, hnext]
        · rw [if_neg hones, if_neg hones]
          show (match allocBitInWord (wordAt be bitmap w) w maxBits with
            | some b => _ | none => _) = _
          cases hfind : allocBitInWord (wordAt be bitmap w) w maxBits with
          | none => exact hnext
          | some b =>
            obtain ⟨-, hb, -, -⟩ := allocBitInWord_some hfind
            dsimp only
            rw [toInt_of_lt (show w * 32 + b < 2 ^ 31 by omega)]
            rfl
    · rw [if_neg hlt, if_neg hlt]
      rfl

/-- On the bitmaps of a volume `alloc_bit` does what `allocBit` does. -/
theorem allocBitInt_eq {maxBits : UInt32} (hmax : maxBits.toNat ≤ 2 ^ 31) :
    allocBitInt be size bitmap maxBits 0 =
      (allocBit be size bitmap maxBits.toNat 0).map (allocBitReturn bitmap) :=
  allocBitRounds_loop hmax (maxBits.toNat / 32 + 1) (2 ^ 32) 0 (by omega) (by omega) (by omega)

/-- In the integers of the machine `clear_bit` computes what `clearBit` does. -/
theorem clearBitInt_eq {i : Nat} (hi : i < 2 ^ 31) :
    clearBitInt be size bitmap i = (clearBit be size bitmap i).map (clearBitReturn bitmap) := by
  have hword : ((i : Int).tdiv 32 % 2 ^ 32).toNat = i / 32 := by
    rw [Int.tdiv_eq_ediv_of_nonneg (by omega)]
    omega
  have hbit : (i : Int).tmod 32 = (i % 32 : Nat) := by
    rw [Int.tmod_eq_emod_of_nonneg (by omega)]
    omega
  unfold clearBitInt clearBit
  dsimp only
  rw [hword, hbit, if_neg (by omega), Int.toNat_natCast]
  by_cases hsize : size < 4 * (i / 32) + 4
  · rw [if_pos hsize, if_pos hsize]
    rfl
  · rw [if_neg hsize, if_neg hsize]
    split
    · rfl
    · rfl

end Loop

/-! ## What they do -/

section Result

variable {be : Bool} {size : Nat} {bitmap : Buf}

theorem FirstClear.unique {maxBits lo i j : Nat} (h : FirstClear be bitmap maxBits lo i)
    (h' : FirstClear be bitmap maxBits lo j) : i = j := by
  rcases Nat.lt_trichotomy i j with hlt | heq | hgt
  · have hset := h'.before i h.lo_le hlt
    rw [h.clear] at hset
    cases hset
  · exact heq
  · have hset := h.before j h'.lo_le hgt
    rw [h'.clear] at hset
    cases hset

/-- There is a first clear bit, or none. -/
theorem firstClear_or_allSet (be : Bool) (bitmap : Buf) (maxBits lo : Nat) :
    (∃ i, FirstClear be bitmap maxBits lo i) ∨ AllSet be bitmap maxBits lo := by
  by_cases h : ∃ i, lo ≤ i ∧ i < maxBits ∧ bitAt be bitmap i = false
  · refine .inl ⟨Nat.find h, ?_⟩
    obtain ⟨hlo, hlt, hclear⟩ := Nat.find_spec h
    refine ⟨hlo, hlt, hclear, fun j hj hji => ?_⟩
    have hmin := Nat.find_min h hji
    cases hbit : bitAt be bitmap j with
    | true => rfl
    | false => exact absurd ⟨hj, Nat.lt_trans hji hlt, hbit⟩ hmin
  · refine .inr fun i hlo hlt => ?_
    cases hbit : bitAt be bitmap i with
    | true => rfl
    | false => exact absurd ⟨i, hlo, hlt, hbit⟩ h

/-- The search for the first clear bit, and its index as an `int`. -/
theorem allocBitInt_found {maxBits startWord : UInt32} {i : Nat}
    (hsize : 4 * ((maxBits.toNat + 31) / 32) ≤ size)
    (h : FirstClear be bitmap maxBits.toNat (32 * startWord.toNat) i) :
    allocBitInt be size bitmap maxBits startWord = .ok (setBitAt be bitmap i, toInt i) := by
  have hlo := h.lo_le
  have hlt := h.lt
  have hmax := maxBits.toNat_lt
  exact allocBitRounds_found (by omega) (by omega) hlt h.clear _ _ (by omega) (by omega)
    fun j hj => h.before j (by omega)

/-- `clear_bit` on the bit that was set. -/
theorem clearBitInt_setBitAt {i : Nat} (hi : i < 2 ^ 31) (hsize : 4 * (i / 32) + 4 ≤ size)
    (h : bitAt be bitmap i = false) :
    clearBitInt be size (setBitAt be bitmap i) i = .ok (bitmap, 0) := by
  have hset : bitAt be (setBitAt be bitmap i) i = true := by
    rw [bitAt_setBitAt]
    simp
  rw [clearBitInt_eq hi, clearBit_of_set hsize hset, clearBitAt_setBitAt h]
  rfl

theorem allocBitInt_ok_iff (be : Bool) {size : Nat} (bitmap : Buf) (maxBits startWord : UInt32)
    (hsize : 4 * ((maxBits.toNat + 31) / 32) ≤ size) :
    AllocBitOk be size bitmap maxBits startWord ↔
      NoWrap be size bitmap maxBits.toNat startWord.toNat := by
  have hstart := startWord.toNat_lt
  have hmax := maxBits.toNat_lt
  constructor
  · intro h
    refine ⟨fun i hi => ?_, fun hall => ?_⟩
    · -- an index from 2 ^ 31 on comes back negative
      obtain ⟨bitmap', hrun, -, -⟩ := h.found i hi
      have hlt := hi.lt
      rw [allocBitInt_found hsize hi] at hrun
      simp only [Except.ok.injEq, Prod.mk.injEq] at hrun
      by_contra hge
      have hneg := hrun.2
      rw [toInt_of_le (by omega) (by omega)] at hneg
      omega
    · exact allocBitRounds_neg_one hmax _ _ hstart (h.full.mpr hall)
  · intro h
    refine ⟨fun i hi => ?_, ⟨fun hrun => ?_, fun hall => ?_⟩, fun i hi hin hclear => ?_⟩
    · have hi31 := h.fits i hi
      have hlt := hi.lt
      refine ⟨setBitAt be bitmap i, ?_, fun j => ?_, clearBitInt_setBitAt hi31 (by omega) hi.clear⟩
      · rw [allocBitInt_found hsize hi, toInt_of_lt hi31]
      · rw [bitAt_setBitAt]
        congr 1
        simp only [decide_eq_decide]
        exact eq_comm
    · rcases firstClear_or_allSet be bitmap maxBits.toNat (32 * startWord.toNat) with ⟨i, hi⟩ | hall
      · have hlt := hi.lt
        rw [allocBitInt_found hsize hi] at hrun
        simp only [Except.ok.injEq, Prod.mk.injEq] at hrun
        exact absurd hrun.2 (toInt_ne (by omega))
      · exact hall
    · obtain ⟨hroom, hrest⟩ := h.stops hall
      exact allocBitRounds_full hroom _ _ hstart (by omega) hrest
    · rw [clearBitInt_eq hi, clearBit_of_clear hin hclear]
      rfl

/-- On a bitmap of one word whose first bit is set. -/
theorem allocBitInt_ok_iff_sample :
    AllocBitOk false 4 (setBitAt false zeroed 0) 20 0 ↔
      NoWrap false 4 (setBitAt false zeroed 0) 20 0 :=
  allocBitInt_ok_iff false (setBitAt false zeroed 0) 20 0 (by decide)

/-- From word `2 ^ 27` on there is no index to look at in a bitmap of 32 bits, but the loop
counts its bits from 0 on and reads behind the bitmap. -/
theorem allocBitInt_wraps : ¬ AllocBitOk false 4 zeroed 32 0x08000000 := by
  intro h
  have hall : AllSet false zeroed (32 : UInt32).toNat (32 * (0x08000000 : UInt32).toNat) := by
    intro i hlo hlt
    exact absurd (Nat.lt_of_le_of_lt hlo hlt) (by decide)
  have hrun := h.full.mpr hall
  rw [allocBitInt, show 2 ^ 32 = (2 ^ 32 - 1) + 1 from rfl, allocBitRounds, if_pos (by decide),
    if_pos (by decide)] at hrun
  cases hrun

end Result

end Cheviot.Ext2
