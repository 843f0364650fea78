import Cheviot.Lib.Bits
import Cheviot.Lib.Run
import Cheviot.Ext2.Types

/-!
# `bitmap.c`: allocating and clearing a bit

`allocBit` is the two nested loops of `alloc_bit`: the outer one over the words
of the bitmap that start below `max_bits`, the inner one over the bits of a word
that has a clear one. `allocBit_spec` says what the pair computes: the first
clear bit at or after the start word, or none.

A bitmap is a buffer of `size` bytes; reading a word past it is a fault.
-/

namespace Cheviot.Ext2

open Cheviot.Bytes Cheviot.Bits Cheviot.Run

/-- The inner loop of `alloc_bit`: the first clear bit of word `w` below `maxBits`. -/
def allocBitInWord (word : UInt32) (w maxBits : Nat) : Option Nat :=
  (List.range 32).find? fun b => decide (w * 32 + b < maxBits) && !hasBit word b

/-- The outer loop of `alloc_bit`, from word `w`, for at most the given number of words. -/
def allocBitLoop (be : Bool) (size : Nat) (bitmap : Buf) (maxBits : Nat) :
    Nat → Nat → Except Fault (Option (Buf × Nat))
  | 0, _ => .ok none
  | n + 1, w =>
    if w * 32 < maxBits then
      if size < 4 * w + 4 then .error .outOfBounds
      else if wordAt be bitmap w = 0xFFFFFFFF then allocBitLoop be size bitmap maxBits n (w + 1)
      else
        match allocBitInWord (wordAt be bitmap w) w maxBits with
        | some b => .ok (some (st32 be bitmap (4 * w) (wordAt be bitmap w ||| mask b), w * 32 + b))
        | none => allocBitLoop be size bitmap maxBits n (w + 1)
    else .ok none

/-- `alloc_bit`: the bitmap with the bit set and its index, or `none` for `-1`. -/
def allocBit (be : Bool) (size : Nat) (bitmap : Buf) (maxBits startWord : Nat) :
    Except Fault (Option (Buf × Nat)) :=
  allocBitLoop be size bitmap maxBits (maxBits / 32 + 1) startWord

/-- `clear_bit`: the bitmap with the bit cleared, or `none` for `-1`. -/
def clearBit (be : Bool) (size : Nat) (bitmap : Buf) (index : Nat) : Except Fault (Option Buf) :=
  if size < 4 * (index / 32) + 4 then .error .outOfBounds
  else if hasBit (wordAt be bitmap (index / 32)) (index % 32) then
    .ok (some (st32 be bitmap (4 * (index / 32))
      (wordAt be bitmap (index / 32) &&& ~~~(mask (index % 32)))))
  else .ok none

/-! ## What the inner loop finds -/

theorem allocBitInWord_some {word : UInt32} {w maxBits b : Nat}
    (h : allocBitInWord word w maxBits = some b) :
    b < 32 ∧ w * 32 + b < maxBits ∧ hasBit word b = false ∧
      ∀ c, c < b → hasBit word c = true := by
  unfold allocBitInWord at h
  obtain ⟨hp, as, bs, has, hbefore⟩ := List.find?_eq_some_iff_append.mp h
  simp only [Bool.and_eq_true, decide_eq_true_eq, Bool.not_eq_true'] at hp
  have hlen : as.length = b ∧ b < 32 := by
    have hget : (List.range 32)[as.length]? = some b := by rw [has]; simp
    obtain ⟨hlt, heq⟩ := List.getElem?_eq_some_iff.mp hget
    rw [List.getElem_range] at heq
    rw [List.length_range] at hlt
    exact ⟨heq, by omega⟩
  refine ⟨hlen.2, hp.1, hp.2, fun c hc => ?_⟩
  have hmem : c ∈ as := by
    have hget : (List.range 32)[c]? = some c := by
      rw [List.getElem?_range (by omega)]
    rw [has, List.getElem?_append_left (by omega)] at hget
    exact List.mem_of_getElem? hget
  have hc := hbefore c hmem
  simp only [Bool.not_and, Bool.not_not, Bool.or_eq_true, Bool.not_eq_true', decide_eq_false_iff_not] at hc
  rcases hc with hc | hc
  · exact absurd (by omega) hc
  · exact hc

theorem allocBitInWord_none {word : UInt32} {w maxBits : Nat}
    (h : allocBitInWord word w maxBits = none) {b : Nat} (hb : b < 32) (hlt : w * 32 + b < maxBits) :
    hasBit word b = true := by
  have hall := List.find?_eq_none.mp h b (List.mem_range.mpr hb)
  simpa [hlt] using hall

/-! ## `alloc_bit` -/

/-- The result of a search of bits `lo ≤ i < maxBits`: the first clear bit, set, or nothing. -/
inductive AllocBitResult (be : Bool) (bitmap : Buf) (maxBits lo : Nat) :
    Option (Buf × Nat) → Prop where
  | found (i : Nat) (hlo : lo ≤ i) (hi : i < maxBits) (hclear : bitAt be bitmap i = false)
      (hfirst : ∀ j, lo ≤ j → j < i → bitAt be bitmap j = true) :
      AllocBitResult be bitmap maxBits lo (some (setBitAt be bitmap i, i))
  | full (hset : ∀ j, lo ≤ j → j < maxBits → bitAt be bitmap j = true) :
      AllocBitResult be bitmap maxBits lo none

theorem AllocBitResult.of_word_full {be : Bool} {bitmap : Buf} {maxBits w : Nat}
    {r : Option (Buf × Nat)}
    (hw : ∀ b, b < 32 → w * 32 + b < maxBits → hasBit (wordAt be bitmap w) b = true)
    (h : AllocBitResult be bitmap maxBits ((w + 1) * 32) r) :
    AllocBitResult be bitmap maxBits (w * 32) r := by
  have hword : ∀ j, w * 32 ≤ j → j < (w + 1) * 32 → j < maxBits → bitAt be bitmap j = true := by
    intro j h1 h2 h3
    have hdiv : j / 32 = w := by omega
    unfold bitAt
    rw [hdiv]
    exact hw (j % 32) (by omega) (by omega)
  cases h with
  | found i hlo hi hclear hfirst =>
    refine .found i (by omega) hi hclear fun j h1 h2 => ?_
    rcases Nat.lt_or_ge j ((w + 1) * 32) with hj | hj
    · exact hword j h1 hj (by omega)
    · exact hfirst j hj h2
  | full hset =>
    refine .full fun j h1 h2 => ?_
    rcases Nat.lt_or_ge j ((w + 1) * 32) with hj | hj
    · exact hword j h1 hj h2
    · exact hset j hj h2

/-- Whatever the loop ends with is the result of a search from its word on. -/
theorem allocBitLoop_ends {be : Bool} {size : Nat} {bitmap : Buf} {maxBits : Nat} :
    ∀ (n w : Nat), maxBits ≤ (w + n) * 32 →
      Ends (allocBitLoop be size bitmap maxBits n w)
        (AllocBitResult be bitmap maxBits (w * 32)) := by
  intro n
  -- by the words still to be looked at; those before have no clear bit
  induction n with
  | zero => exact fun w hw => .ok (.full fun j h1 h2 => absurd h2 (by omega))
  | succ n ih =>
    intro w hw
    rw [allocBitLoop]
    by_cases hwm : w * 32 < maxBits
    · rw [if_pos hwm]
      split
      · exact .error _
      have hnext := ih (w + 1) (by omega)
      by_cases hones : wordAt be bitmap w = 0xFFFFFFFF
      · rw [if_pos hones]
        exact hnext.mono fun r hres =>
          .of_word_full (fun b hb _ => by rw [hones]; exact hasBit_of_all_ones hb) hres
      · rw [if_neg hones]
        cases hfind : allocBitInWord (wordAt be bitmap w) w maxBits with
        | none =>
          exact hnext.mono fun r hres =>
            .of_word_full (fun b hb hlt => allocBitInWord_none hfind hb hlt) hres
        | some b =>
          obtain ⟨hb, hlt, hclear, hfirst⟩ := allocBitInWord_some hfind
          -- bit `b` of word `w` is bit `w * 32 + b` of the bitmap
          have hdiv : (w * 32 + b) / 32 = w := by omega
          have hmod : (w * 32 + b) % 32 = b := by omega
          have hset : st32 be bitmap (4 * w) (wordAt be bitmap w ||| mask b) =
              setBitAt be bitmap (w * 32 + b) := by
            rw [setBitAt, hdiv, hmod]
          dsimp only
          rw [hset]
          refine .ok (.found (w * 32 + b) (by omega) hlt ?_ fun j h1 h2 => ?_)
          · rw [bitAt, hdiv, hmod]
            exact hclear
          · rw [bitAt, show j / 32 = w from by omega]
            exact hfirst (j % 32) (by omega)
    · rw [if_neg hwm]
      exact .ok (.full fun j h1 h2 => absurd h2 (by omega))

/-- A bitmap that is large enough is searched to the end. -/
theorem allocBitLoop_ok {be : Bool} {size : Nat} {bitmap : Buf} {maxBits : Nat}
    (hsize : 4 * ((maxBits + 31) / 32) ≤ size) :
    ∀ (n w : Nat), ∃ r, allocBitLoop be size bitmap maxBits n w = .ok r := by
  intro n
  induction n with
  | zero => exact fun w => ⟨none, rfl⟩
  | succ n ih =>
    intro w
    rw [allocBitLoop]
    by_cases hwm : w * 32 < maxBits
    · rw [if_pos hwm, if_neg (by omega)]
      split
      · exact ih (w + 1)
      · split
        · exact ⟨_, rfl⟩
        · exact ih (w + 1)
    · rw [if_neg hwm]
      exact ⟨none, rfl⟩

/-- `alloc_bit` sets the first clear bit from `start_word` on, or returns `-1`, if there is none. -/
theorem allocBit_ends (be : Bool) (size : Nat) (bitmap : Buf) (maxBits startWord : Nat) :
    Ends (allocBit be size bitmap maxBits startWord)
      (AllocBitResult be bitmap maxBits (startWord * 32)) :=
  allocBitLoop_ends _ _ (by omega)

/-- `alloc_bit` sets the first clear bit from `start_word` on, and returns `-1`
exactly when there is none. -/
theorem allocBit_spec (be : Bool) {size : Nat} (bitmap : Buf) {maxBits : Nat} (startWord : Nat)
    (hsize : 4 * ((maxBits + 31) / 32) ≤ size) :
    ∃ r, allocBit be size bitmap maxBits startWord = .ok r ∧
      AllocBitResult be bitmap maxBits (startWord * 32) r := by
  obtain ⟨r, hr⟩ := allocBitLoop_ok hsize (maxBits / 32 + 1) startWord
  exact ⟨r, hr, allocBit_ends be size bitmap maxBits startWord r hr⟩

/-- The words of a bitmap whose bits fit in a block fit in that block. -/
theorem bitmap_words_le {v : Volume} (hlog : v.logBlockSize ≤ 5) {n : Nat}
    (h : n ≤ 8 * v.blockSize) : 4 * ((n + 31) / 32) ≤ v.blockSize := by
  have hbs := Volume.blockSize_bounds hlog
  omega

/-! ## `clear_bit` -/

theorem clearBit_of_set {be : Bool} {size : Nat} {bitmap : Buf} {index : Nat}
    (hsize : 4 * (index / 32) + 4 ≤ size) (h : bitAt be bitmap index = true) :
    clearBit be size bitmap index = .ok (some (clearBitAt be bitmap index)) := by
  unfold bitAt at h
  rw [clearBit, if_neg (by omega), if_pos h]
  rfl

theorem clearBit_of_clear {be : Bool} {size : Nat} {bitmap : Buf} {index : Nat}
    (hsize : 4 * (index / 32) + 4 ≤ size) (h : bitAt be bitmap index = false) :
    clearBit be size bitmap index = .ok none := by
  unfold bitAt at h
  rw [clearBit, if_neg (by omega), if_neg (by simp [h])]

/-- Whatever `clear_bit` clears is the bit at its index, which was set. -/
theorem clearBit_some {be : Bool} {size : Nat} {bitmap bitmap' : Buf} {index : Nat}
    (h : clearBit be size bitmap index = .ok (some bitmap')) :
    4 * (index / 32) + 4 ≤ size ∧ bitAt be bitmap index = true ∧
      bitmap' = clearBitAt be bitmap index := by
  unfold clearBit at h
  split at h
  · cases h
  · split at h
    · next hsize hbit =>
      simp only [Except.ok.injEq, Option.some.injEq] at h
      exact ⟨by omega, hbit, h.symm⟩
    · cases h

end Cheviot.Ext2
