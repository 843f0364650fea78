import Cheviot.Lib.Bytes
import Mathlib.Data.Nat.Count
import Mathlib.Algebra.BigOperators.Group.Finset.Basic
import Mathlib.Algebra.Order.BigOperators.Group.Finset

/-!
# Bitmaps kept in the words of a buffer, and counting their bits

Bit `i` of a bitmap is bit `i % 32` of its 32-bit word `i / 32`. A word is
tested, set and cleared with the masks `1 << b`; `hasBit_set` and `hasBit_clear`
say what this does to every bit, and `bitAt_setBitAt`, `bitAt_clearBitAt` lift
it to a bitmap stored in a buffer.

The second half counts: when a predicate on numbers is withdrawn at one place,
its count up to a bound drops by one (`count_withdraw`), and when one summand
drops by one, so does the sum (`sum_withdraw`).
-/

namespace Cheviot.Bits

open Cheviot.Bytes

/-! ## Bits of one word -/

/-- The mask `1 << b`. -/
def mask (b : Nat) : UInt32 := 1 <<< UInt32.ofNat b

/-- Bit `b` of a word, tested as C does it: `word & (1 << b)`. -/
def hasBit (word : UInt32) (b : Nat) : Bool := (word &&& mask b) != 0

theorem mask_toNat {b : Nat} (hb : b < 32) : (mask b).toNat = 2 ^ b := by
  have h32 : b % 2 ^ 32 % 32 = b := by omega
  have hlt : 2 ^ b < 2 ^ 32 := Nat.pow_lt_pow_right (by omega) hb
  simp only [mask, UInt32.toNat_shiftLeft, UInt32.toNat_ofNat', h32]
  show 1 <<< b % 2 ^ 32 = 2 ^ b
  rw [Nat.shiftLeft_eq, Nat.one_mul, Nat.mod_eq_of_lt hlt]

theorem hasBit_eq_testBit {b : Nat} (hb : b < 32) (word : UInt32) :
    hasBit word b = word.toNat.testBit b := by
  have hbit : (word.toNat &&& 2 ^ b).testBit b = word.toNat.testBit b := by
    rw [Nat.testBit_and, Nat.testBit_two_pow_self, Bool.and_true]
  have hne : (word &&& mask b = 0) ↔ word.toNat.testBit b = false := by
    rw [← UInt32.toNat_inj, UInt32.toNat_and, mask_toNat hb]
    constructor
    · intro h
      rw [← hbit, h]
      simp
    · intro h
      apply Nat.eq_of_testBit_eq
      intro i
      rw [Nat.testBit_and, Nat.testBit_two_pow]
      by_cases hbi : b = i
      · simp [← hbi, h]
      · simp [hbi]
  cases h : word.toNat.testBit b with
  | false => simp [hasBit, hne.mpr h]
  | true =>
    have : word &&& mask b ≠ 0 := fun he => by simp [hne.mp he] at h
    simpa [hasBit] using this

theorem hasBit_set {b c : Nat} (hb : b < 32) (hc : c < 32) (word : UInt32) :
    hasBit (word ||| mask b) c = (decide (b = c) || hasBit word c) := by
  rw [hasBit_eq_testBit hc, hasBit_eq_testBit hc, UInt32.toNat_or, Nat.testBit_or, mask_toNat hb,
    Nat.testBit_two_pow, Bool.or_comm]

theorem hasBit_clear {b c : Nat} (hb : b < 32) (hc : c < 32) (word : UInt32) :
    hasBit (word &&& ~~~(mask b)) c = (!decide (b = c) && hasBit word c) := by
  have hlt : 2 ^ b < 2 ^ 32 := Nat.pow_lt_pow_right (by omega) hb
  rw [hasBit_eq_testBit hc, hasBit_eq_testBit hc, UInt32.toNat_and, Nat.testBit_and,
    UInt32.toNat_not, mask_toNat hb,
    show UInt32.size - 1 - 2 ^ b = 2 ^ 32 - (2 ^ b + 1) from by rw [UInt32.size]; omega,
    Nat.testBit_two_pow_sub_succ hlt, Nat.testBit_two_pow, Bool.and_comm]
  simp [hc]

/-- A word is its 32 bits. -/
theorem word_ext {x y : UInt32} (h : ∀ c, c < 32 → hasBit x c = hasBit y c) : x = y := by
  rw [← UInt32.toNat_inj]
  apply Nat.eq_of_testBit_eq
  intro i
  by_cases hi : i < 32
  · rw [← hasBit_eq_testBit hi, ← hasBit_eq_testBit hi, h i hi]
  · have hpow : 2 ^ 32 ≤ 2 ^ i := Nat.pow_le_pow_right (by omega) (by omega)
    rw [Nat.testBit_lt_two_pow (Nat.lt_of_lt_of_le x.toNat_lt hpow),
      Nat.testBit_lt_two_pow (Nat.lt_of_lt_of_le y.toNat_lt hpow)]

/-- A word with all 32 bits set has no clear bit. -/
theorem hasBit_of_all_ones {c : Nat} (hc : c < 32) : hasBit 0xFFFFFFFF c = true := by
  rw [hasBit_eq_testBit hc, show (0xFFFFFFFF : UInt32).toNat = 2 ^ 32 - 1 from rfl,
    Nat.testBit_two_pow_sub_one]
  simpa using hc

/-! ## Bits of a buffer -/

/-- Word `w` of a bitmap in host byte order. -/
def wordAt (be : Bool) (b : Buf) (w : Nat) : UInt32 := ld32 be b (4 * w)

/-- Bit `i` of a bitmap. -/
def bitAt (be : Bool) (b : Buf) (i : Nat) : Bool := hasBit (wordAt be b (i / 32)) (i % 32)

/-- The bitmap with bit `i` set. -/
def setBitAt (be : Bool) (b : Buf) (i : Nat) : Buf :=
  st32 be b (4 * (i / 32)) (wordAt be b (i / 32) ||| mask (i % 32))

/-- The bitmap with bit `i` cleared. -/
def clearBitAt (be : Bool) (b : Buf) (i : Nat) : Buf :=
  st32 be b (4 * (i / 32)) (wordAt be b (i / 32) &&& ~~~(mask (i % 32)))

theorem wordAt_store (be : Bool) (b : Buf) (w w' : Nat) (x : UInt32) :
    wordAt be (st32 be b (4 * w) x) w' = if w = w' then x else wordAt be b w' := by
  unfold wordAt
  by_cases h : w = w'
  · subst h
    rw [if_pos rfl, ld32_st32]
  · rw [if_neg h, ld32_st32_ne (by omega)]

theorem bitAt_setBitAt (be : Bool) (b : Buf) (i j : Nat) :
    bitAt be (setBitAt be b i) j = (decide (i = j) || bitAt be b j) := by
  unfold bitAt setBitAt
  rw [wordAt_store]
  by_cases hw : i / 32 = j / 32
  · rw [if_pos hw, hasBit_set (Nat.mod_lt _ (by omega)) (Nat.mod_lt _ (by omega)), hw]
    congr 1
    simp only [decide_eq_decide]
    omega
  · have hij : i ≠ j := fun h => hw (h ▸ rfl)
    rw [if_neg hw]
    simp [hij]

theorem bitAt_clearBitAt (be : Bool) (b : Buf) (i j : Nat) :
    bitAt be (clearBitAt be b i) j = (!decide (i = j) && bitAt be b j) := by
  unfold bitAt clearBitAt
  rw [wordAt_store]
  by_cases hw : i / 32 = j / 32
  · rw [if_pos hw, hasBit_clear (Nat.mod_lt _ (by omega)) (Nat.mod_lt _ (by omega)), hw]
    congr 2
    simp only [decide_eq_decide]
    omega
  · have hij : i ≠ j := fun h => hw (h ▸ rfl)
    rw [if_neg hw]
    simp [hij]

/-- Clearing a bit undoes setting it. -/
theorem clearBitAt_setBitAt {be : Bool} {b : Buf} {i : Nat} (h : bitAt be b i = false) :
    clearBitAt be (setBitAt be b i) i = b := by
  have hm : i % 32 < 32 := Nat.mod_lt _ (by omega)
  have hword : (wordAt be b (i / 32) ||| mask (i % 32)) &&& ~~~(mask (i % 32)) =
      wordAt be b (i / 32) := by
    apply word_ext
    intro c hc
    rw [hasBit_clear hm hc, hasBit_set hm hc]
    by_cases hic : i % 32 = c
    · rw [← hic, show hasBit (wordAt be b (i / 32)) (i % 32) = false from h]
      simp
    · simp [hic]
  unfold clearBitAt setBitAt
  rw [wordAt_store, if_pos rfl, st32_st32, hword]
  exact st32_ld32 be b _

/-! The byte a bit is in, which the order of the host decides. -/

/-- The byte of a bitmap that holds bit `i`. -/
def byteOfBit (be : Bool) (i : Nat) : Nat :=
  4 * (i / 32) + if be then 3 - i % 32 / 8 else i % 32 / 8

theorem byteOfBit_host (i : Nat) : byteOfBit false i ≠ byteOfBit true i := by
  simp only [byteOfBit, if_true, Bool.false_eq_true, if_false]
  omega

/-- Bit `i` of byte `j` of a word. -/
theorem testBit_byte32 (x : UInt32) (j i : Nat) :
    (byte32 x j).toNat.testBit i = (decide (i < 8) && x.toNat.testBit (8 * j + i)) := by
  rw [byte32, UInt8.toNat_ofNat', Nat.testBit_mod_two_pow, show 256 = 2 ^ 8 from rfl, ← Nat.pow_mul,
    Nat.testBit_div_two_pow, Nat.add_comm i]

/-- A word changed only in bit `m` is changed only in the byte of that bit. -/
theorem byte32_of_testBit {x y : UInt32} {m j : Nat}
    (h : ∀ i, i ≠ m → y.toNat.testBit i = x.toNat.testBit i) (hj : j ≠ m / 8) :
    byte32 y j = byte32 x j := by
  rw [← UInt8.toNat_inj]
  apply Nat.eq_of_testBit_eq
  intro i
  rw [testBit_byte32, testBit_byte32]
  by_cases hi : i < 8
  · rw [h (8 * j + i) (by omega)]
  · simp [hi]

/-- A store that changes only bit `i` of a bitmap changes only its byte. -/
theorem store_apply_ne {be : Bool} {b : Buf} {i p : Nat} {x : UInt32}
    (h : ∀ k, k ≠ i % 32 → x.toNat.testBit k = (wordAt be b (i / 32)).toNat.testBit k)
    (hp : p ≠ byteOfBit be i) : st32 be b (4 * (i / 32)) x p = b p := by
  by_cases hin : 4 * (i / 32) ≤ p ∧ p < 4 * (i / 32) + 4
  · obtain ⟨j, rfl⟩ : ∃ j, p = 4 * (i / 32) + j := ⟨p - 4 * (i / 32), by omega⟩
    rw [st32_byte be b _ x (by omega), ← byte32_ld32 be b _ (show j < 4 by omega)]
    refine byte32_of_testBit h fun hj => hp ?_
    rw [byteOfBit]
    cases be with
    | false => simpa using hj
    | true =>
      simp only [if_true] at hj ⊢
      omega
  · exact st32_apply_ne (by omega)

theorem setBitAt_apply_ne {be : Bool} {b : Buf} {i p : Nat} (hp : p ≠ byteOfBit be i) :
    setBitAt be b i p = b p := by
  refine store_apply_ne (fun k hk => ?_) hp
  rw [UInt32.toNat_or, mask_toNat (Nat.mod_lt _ (by omega)), Nat.testBit_or,
    Nat.testBit_two_pow]
  simp [Ne.symm hk]

theorem clearBitAt_apply_ne {be : Bool} {b : Buf} {i p : Nat} (hp : p ≠ byteOfBit be i) :
    clearBitAt be b i p = b p := by
  refine store_apply_ne (fun k hk => ?_) hp
  have hm : i % 32 < 32 := Nat.mod_lt _ (by omega)
  have hlt : 2 ^ (i % 32) < 2 ^ 32 := Nat.pow_lt_pow_right (by omega) hm
  rw [UInt32.toNat_and, UInt32.toNat_not, mask_toNat hm, Nat.testBit_and,
    show UInt32.size - 1 - 2 ^ (i % 32) = 2 ^ 32 - (2 ^ (i % 32) + 1) from by
      rw [UInt32.size]; omega,
    Nat.testBit_two_pow_sub_succ hlt, Nat.testBit_two_pow]
  by_cases hk32 : k < 32
  · simp [hk32, Ne.symm hk]
  · have hword := (wordAt be b (i / 32)).toNat_lt
    have hpow : 2 ^ 32 ≤ 2 ^ k := Nat.pow_le_pow_right (by omega) (by omega)
    rw [Nat.testBit_lt_two_pow (Nat.lt_of_lt_of_le hword hpow), Bool.false_and]

/-- The two kinds of host never set the same bit of a buffer. -/
theorem setBitAt_host_ne {b : Buf} {i : Nat} (h : bitAt false b i = false) :
    setBitAt false b i ≠ setBitAt true b i := by
  intro heq
  have hsame : setBitAt false b i = b := by
    funext p
    by_cases hp : p = byteOfBit false i
    · rw [heq, setBitAt_apply_ne (hp ▸ byteOfBit_host i)]
    · exact setBitAt_apply_ne hp
  have hset := bitAt_setBitAt false b i i
  rw [hsame, h, decide_eq_true rfl] at hset
  cases hset

/-- Nor do they clear the same bit. -/
theorem clearBitAt_host_ne {b : Buf} {i : Nat} (h : bitAt false b i = true) :
    clearBitAt false b i ≠ clearBitAt true b i := by
  intro heq
  have hsame : clearBitAt false b i = b := by
    funext p
    by_cases hp : p = byteOfBit false i
    · rw [heq, clearBitAt_apply_ne (hp ▸ byteOfBit_host i)]
    · exact clearBitAt_apply_ne hp
  have hclear := bitAt_clearBitAt false b i i
  rw [hsame, h, decide_eq_true rfl] at hclear
  cases hclear

/-! ## Counting -/

/-- Withdrawing a predicate at one place lowers its count by one. -/
theorem count_withdraw {p q : Nat → Prop} [DecidablePred p] [DecidablePred q] {i n : Nat}
    (hi : i < n) (hp : p i) (hq : ¬ q i) (hpq : ∀ j, j < n → j ≠ i → (q j ↔ p j)) :
    Nat.count p n = Nat.count q n + 1 := by
  induction n with
  | zero => exact absurd hi (Nat.not_lt_zero i)
  | succ n ih =>
    rw [Nat.count_succ, Nat.count_succ]
    by_cases hin : i = n
    · subst hin
      have heq : Nat.count p i = Nat.count q i := by
        rw [Nat.count_eq_card_filter_range, Nat.count_eq_card_filter_range]
        congr 1
        apply Finset.filter_congr
        intro j hj
        have hj := Finset.mem_range.mp hj
        exact (hpq j (by omega) (by omega)).symm
      rw [if_pos hp, if_neg hq, heq]
    · have hlt : i < n := by omega
      rw [ih hlt fun j hj hne => hpq j (by omega) hne]
      have hn : q n ↔ p n := hpq n (by omega) fun h => hin h.symm
      by_cases hpn : p n
      · rw [if_pos hpn, if_pos (hn.mpr hpn)]
      · rw [if_neg hpn, if_neg fun h => hpn (hn.mp h)]

theorem count_congr {p q : Nat → Prop} [DecidablePred p] [DecidablePred q] {n : Nat}
    (h : ∀ j, j < n → (q j ↔ p j)) : Nat.count q n = Nat.count p n := by
  rw [Nat.count_eq_card_filter_range, Nat.count_eq_card_filter_range]
  congr 1
  apply Finset.filter_congr
  intro j hj
  exact h j (Finset.mem_range.mp hj)

/-- A predicate that holds only below `m`, and not everywhere there, has a count below `m`. -/
theorem count_lt {p : Nat → Prop} [DecidablePred p] {i m n : Nat} (hi : i < m) (hnot : ¬ p i)
    (h : ∀ j, j < n → p j → j < m) : Nat.count p n < m := by
  rw [Nat.count_eq_card_filter_range]
  have hsub : (Finset.range n).filter p ⊆ (Finset.range m).erase i := by
    intro j hj
    obtain ⟨hjn, hpj⟩ := Finset.mem_filter.mp hj
    refine Finset.mem_erase.mpr ⟨fun he => hnot (he ▸ hpj), ?_⟩
    exact Finset.mem_range.mpr (h j (Finset.mem_range.mp hjn) hpj)
  have hcard := Finset.card_le_card hsub
  rw [Finset.card_erase_of_mem (Finset.mem_range.mpr hi), Finset.card_range] at hcard
  exact Nat.lt_of_le_of_lt hcard (by omega)

/-- Lowering one summand by one lowers the sum by one. -/
theorem sum_withdraw {f g : Nat → Nat} {i n : Nat} (hi : i < n) (hfg : f i = g i + 1)
    (h : ∀ j, j < n → j ≠ i → g j = f j) :
    ∑ j ∈ Finset.range n, f j = ∑ j ∈ Finset.range n, g j + 1 := by
  have hmem : i ∈ Finset.range n := Finset.mem_range.mpr hi
  have hrest : ∑ j ∈ (Finset.range n).erase i, f j = ∑ j ∈ (Finset.range n).erase i, g j := by
    apply Finset.sum_congr rfl
    intro j hj
    obtain ⟨hne, hlt⟩ := Finset.mem_erase.mp hj
    exact (h j (Finset.mem_range.mp hlt) hne).symm
  rw [← Finset.add_sum_erase _ f hmem, ← Finset.add_sum_erase _ g hmem, hrest, hfg]
  omega

/-- The counts of a predicate over consecutive groups of `m` numbers add up to
its count over all of them. -/
theorem sum_count_groups (p : Nat → Prop) [DecidablePred p] (m n : Nat) :
    ∑ g ∈ Finset.range n, Nat.count (fun i => p (g * m + i)) m = Nat.count p (n * m) := by
  induction n with
  | zero => simp
  | succ n ih => rw [Finset.sum_range_succ, ih, Nat.succ_mul, Nat.count_add]

end Cheviot.Bits
