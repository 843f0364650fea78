import Mathlib.Algebra.Group.Int.Defs
import Mathlib.Algebra.Group.Nat.Defs
import Mathlib.Tactic.Common

/-!
# Byte buffers and fixed-width loads and stores

A block buffer is a function from byte offsets to bytes. Loads and stores of
16- and 32-bit words are taken in the byte order of the host (`be = true` for a
big-endian host), which is what `((uint32_t *) p)[i]` means in C; `swap16` and
`swap32` exchange the bytes of a word, so that a load on a big-endian host
followed by a swap is a little-endian load (`swap32_ld32`).

The rules every client needs are the four of a memory: a load after a store at
the same place (`ld32_st32`), a load after a store elsewhere (`ld32_st32_ne`),
a load from two buffers that agree on its bytes (`ld32_congr`), and what a store
leaves alone (`st32_apply_ne`).
-/

namespace Cheviot.Bytes

/-- The bytes of a buffer, by offset. -/
abbrev Buf := Nat → UInt8

/-- The buffer that holds only zero bytes. -/
def zeroed : Buf := fun _ => 0

/-- `b` and `b'` hold the same bytes at the offsets `lo ≤ i < hi`. -/
def AgreeOn (lo hi : Nat) (b b' : Buf) : Prop := ∀ i, lo ≤ i → i < hi → b' i = b i

theorem AgreeOn.refl (lo hi : Nat) (b : Buf) : AgreeOn lo hi b b := fun _ _ _ => rfl

theorem AgreeOn.mono {lo hi lo' hi' : Nat} {b b' : Buf} (h : AgreeOn lo hi b b')
    (hlo : lo ≤ lo') (hhi : hi' ≤ hi) : AgreeOn lo' hi' b b' :=
  fun i h1 h2 => h i (Nat.le_trans hlo h1) (Nat.lt_of_lt_of_le h2 hhi)

theorem AgreeOn.trans {lo hi : Nat} {b b' b'' : Buf} (h : AgreeOn lo hi b b')
    (h' : AgreeOn lo hi b' b'') : AgreeOn lo hi b b'' :=
  fun i h1 h2 => (h' i h1 h2).trans (h i h1 h2)

/-! ## Words as bytes -/

/-- The 16-bit word with low byte `x` and high byte `y`. -/
def word16 (x y : UInt8) : UInt16 := UInt16.ofNat (x.toNat + 256 * y.toNat)

/-- The 32-bit word with the bytes `x, y, z, w`, least significant first. -/
def word32 (x y z w : UInt8) : UInt32 :=
  UInt32.ofNat (x.toNat + 256 * y.toNat + 65536 * z.toNat + 16777216 * w.toNat)

/-- Byte `k` of a 16-bit word, counted from the least significant. -/
def byte16 (x : UInt16) (k : Nat) : UInt8 := UInt8.ofNat (x.toNat / 256 ^ k)

/-- Byte `k` of a 32-bit word, counted from the least significant. -/
def byte32 (x : UInt32) (k : Nat) : UInt8 := UInt8.ofNat (x.toNat / 256 ^ k)

theorem word16_bytes (x : UInt16) : word16 (byte16 x 0) (byte16 x 1) = x := by
  have hx := x.toNat_lt
  rw [← UInt16.toNat_inj]
  simp only [word16, byte16, UInt16.toNat_ofNat', UInt8.toNat_ofNat']
  omega

theorem word32_bytes (x : UInt32) :
    word32 (byte32 x 0) (byte32 x 1) (byte32 x 2) (byte32 x 3) = x := by
  have hx := x.toNat_lt
  rw [← UInt32.toNat_inj]
  simp only [word32, byte32, UInt32.toNat_ofNat', UInt8.toNat_ofNat']
  omega

/-! Counting a word up and down, away from its ends. -/

theorem toNat_pred16 {x : UInt16} (h : x ≠ 0) : (x - 1).toNat + 1 = x.toNat := by
  have hne : x.toNat ≠ 0 := fun he => h (UInt16.toNat_inj.mp he)
  have hlt := x.toNat_lt
  rw [UInt16.toNat_sub, show (1 : UInt16).toNat = 1 from rfl]
  omega

theorem toNat_succ16 {x : UInt16} (h : x.toNat < 65535) : (x + 1).toNat = x.toNat + 1 := by
  rw [UInt16.toNat_add, show (1 : UInt16).toNat = 1 from rfl, Nat.mod_eq_of_lt (by omega)]

theorem toNat_pred32 {x : UInt32} (h : x ≠ 0) : (x - 1).toNat + 1 = x.toNat := by
  have hne : x.toNat ≠ 0 := fun he => h (UInt32.toNat_inj.mp he)
  have hlt := x.toNat_lt
  rw [UInt32.toNat_sub, show (1 : UInt32).toNat = 1 from rfl]
  omega

theorem toNat_succ32 {x : UInt32} (h : x.toNat < 2 ^ 32 - 1) : (x + 1).toNat = x.toNat + 1 := by
  rw [UInt32.toNat_add, show (1 : UInt32).toNat = 1 from rfl, Nat.mod_eq_of_lt (by omega)]

/-- Exchange the two bytes of a word when `swap` is set. -/
def swap16 (swap : Bool) (x : UInt16) : UInt16 :=
  if swap then word16 (byte16 x 1) (byte16 x 0) else x

/-- Reverse the four bytes of a word when `swap` is set. -/
def swap32 (swap : Bool) (x : UInt32) : UInt32 :=
  if swap then word32 (byte32 x 3) (byte32 x 2) (byte32 x 1) (byte32 x 0) else x

@[simp] theorem swap16_false (x : UInt16) : swap16 false x = x := rfl

@[simp] theorem swap32_false (x : UInt32) : swap32 false x = x := rfl

theorem byte16_word16 (x y : UInt8) :
    byte16 (word16 x y) 0 = x ∧ byte16 (word16 x y) 1 = y := by
  have hx := x.toNat_lt
  have hy := y.toNat_lt
  constructor <;> rw [← UInt8.toNat_inj] <;>
    simp only [word16, byte16, UInt16.toNat_ofNat', UInt8.toNat_ofNat'] <;> omega

theorem byte32_word32 (x y z w : UInt8) :
    byte32 (word32 x y z w) 0 = x ∧ byte32 (word32 x y z w) 1 = y ∧
    byte32 (word32 x y z w) 2 = z ∧ byte32 (word32 x y z w) 3 = w := by
  have hx := x.toNat_lt
  have hy := y.toNat_lt
  have hz := z.toNat_lt
  have hw := w.toNat_lt
  refine ⟨?_, ?_, ?_, ?_⟩ <;> rw [← UInt8.toNat_inj] <;>
    simp only [word32, byte32, UInt32.toNat_ofNat', UInt8.toNat_ofNat'] <;> omega

theorem swap16_swap16 (s : Bool) (x : UInt16) : swap16 s (swap16 s x) = x := by
  cases s with
  | false => rfl
  | true =>
    have h := byte16_word16 (byte16 x 1) (byte16 x 0)
    simp only [swap16, if_true, h.1, h.2, word16_bytes]

theorem swap32_swap32 (s : Bool) (x : UInt32) : swap32 s (swap32 s x) = x := by
  cases s with
  | false => rfl
  | true =>
    have h := byte32_word32 (byte32 x 3) (byte32 x 2) (byte32 x 1) (byte32 x 0)
    simp only [swap32, if_true, h.1, h.2.1, h.2.2.1, h.2.2.2, word32_bytes]

theorem byte32_swap32 (s : Bool) (x : UInt32) {j : Nat} (hj : j < 4) :
    byte32 (swap32 s x) j = byte32 x (if s then 3 - j else j) := by
  cases s with
  | false => rfl
  | true =>
    have h := byte32_word32 (byte32 x 3) (byte32 x 2) (byte32 x 1) (byte32 x 0)
    match j, hj with
    | 0, _ => exact h.1
    | 1, _ => exact h.2.1
    | 2, _ => exact h.2.2.1
    | 3, _ => exact h.2.2.2

theorem byte16_swap16 (s : Bool) (x : UInt16) {j : Nat} (hj : j < 2) :
    byte16 (swap16 s x) j = byte16 x (if s then 1 - j else j) := by
  cases s with
  | false => rfl
  | true =>
    have h := byte16_word16 (byte16 x 1) (byte16 x 0)
    match j, hj with
    | 0, _ => exact h.1
    | 1, _ => exact h.2

/-! ## Bytes of a number, masked and joined

What shifts, masks and `|` do to the bytes of a number, for code that swaps
bytes with them. -/

/-- Masking with `j` ones at bit `k` keeps those bits in place. -/
theorem and_mask (n k j : Nat) : n &&& ((2 ^ j - 1) * 2 ^ k) = n / 2 ^ k % 2 ^ j * 2 ^ k := by
  rw [← Nat.and_two_pow_sub_one_eq_mod, ← Nat.shiftRight_eq_div_pow,
    ← Nat.shiftLeft_eq, ← Nat.shiftLeft_eq]
  apply Nat.eq_of_testBit_eq
  intro i
  simp only [Nat.testBit_and, Nat.testBit_shiftLeft, Nat.testBit_shiftRight]
  by_cases h : i ≥ k
  · simp [h]
  · simp [h]

/-- Masking with one byte of ones at bit `k` keeps that byte in place. -/
theorem and_byte (n k : Nat) : n &&& (255 * 2 ^ k) = n / 2 ^ k % 256 * 2 ^ k := and_mask n k 8

/-- The low byte. -/
theorem and_low_byte (n : Nat) : n &&& 255 = n % 256 := Nat.and_two_pow_sub_one_eq_mod n 8

theorem mul_or {a k b : Nat} (h : b < 2 ^ k) : a * 2 ^ k ||| b = a * 2 ^ k + b := by
  rw [← Nat.shiftLeft_eq, Nat.shiftLeft_add_eq_or_of_lt h]

/-- Four bytes put next to each other. -/
theorem or_bytes {a b c d : Nat} (hb : b < 256) (hc : c < 256) (hd : d < 256) :
    a * 2 ^ 24 ||| b * 2 ^ 16 ||| c * 2 ^ 8 ||| d = a * 2 ^ 24 + b * 2 ^ 16 + c * 2 ^ 8 + d := by
  rw [mul_or (by omega), show a * 2 ^ 24 + b * 2 ^ 16 = (a * 2 ^ 8 + b) * 2 ^ 16 from by omega,
    mul_or (by omega),
    show (a * 2 ^ 8 + b) * 2 ^ 16 + c * 2 ^ 8 = ((a * 2 ^ 8 + b) * 2 ^ 8 + c) * 2 ^ 8 from by omega,
    mul_or (by omega)]

/-! ## Loads and stores -/

/-- Load a 16-bit word at offset `o` in the host's byte order. -/
def ld16 (be : Bool) (b : Buf) (o : Nat) : UInt16 := swap16 be (word16 (b o) (b (o + 1)))

/-- Load a 32-bit word at offset `o` in the host's byte order. -/
def ld32 (be : Bool) (b : Buf) (o : Nat) : UInt32 :=
  swap32 be (word32 (b o) (b (o + 1)) (b (o + 2)) (b (o + 3)))

/-- Store a byte at offset `o`. -/
def st8 (b : Buf) (o : Nat) (x : UInt8) : Buf := fun i => if i = o then x else b i

/-- Store a 16-bit word at offset `o` in the host's byte order. -/
def st16 (be : Bool) (b : Buf) (o : Nat) (x : UInt16) : Buf := fun i =>
  if o ≤ i ∧ i < o + 2 then byte16 (swap16 be x) (i - o) else b i

/-- Store a 32-bit word at offset `o` in the host's byte order. -/
def st32 (be : Bool) (b : Buf) (o : Nat) (x : UInt32) : Buf := fun i =>
  if o ≤ i ∧ i < o + 4 then byte32 (swap32 be x) (i - o) else b i

/-- Store the bytes of a list at offset `o` and after. -/
def stBytes (b : Buf) (o : Nat) (l : List UInt8) : Buf := fun i =>
  if o ≤ i ∧ i < o + l.length then l.getD (i - o) 0 else b i

/-- The `n` bytes at offset `o` and after. -/
def getBytes (b : Buf) (o n : Nat) : List UInt8 := (List.range n).map fun k => b (o + k)

theorem swap16_ld16 (be : Bool) (b : Buf) (o : Nat) :
    swap16 be (ld16 be b o) = ld16 false b o := swap16_swap16 be _

theorem swap32_ld32 (be : Bool) (b : Buf) (o : Nat) :
    swap32 be (ld32 be b o) = ld32 false b o := swap32_swap32 be _

theorem st16_swap16 (be : Bool) (b : Buf) (o : Nat) (x : UInt16) :
    st16 be b o (swap16 be x) = st16 false b o x := by
  funext i
  simp only [st16, swap16_swap16, swap16_false]

theorem st32_swap32 (be : Bool) (b : Buf) (o : Nat) (x : UInt32) :
    st32 be b o (swap32 be x) = st32 false b o x := by
  funext i
  simp only [st32, swap32_swap32, swap32_false]

/-- The bytes of a load are those of the buffer, in the order of the host. -/
theorem byte32_ld32 (be : Bool) (b : Buf) (o : Nat) {j : Nat} (hj : j < 4) :
    byte32 (ld32 be b o) (if be then 3 - j else j) = b (o + j) := by
  rw [← byte32_swap32 be _ hj, swap32_ld32]
  have h := byte32_word32 (b o) (b (o + 1)) (b (o + 2)) (b (o + 3))
  match j, hj with
  | 0, _ => exact h.1
  | 1, _ => exact h.2.1
  | 2, _ => exact h.2.2.1
  | 3, _ => exact h.2.2.2

/-- The bytes of a store are those of the word, in the order of the host. -/
theorem st32_byte (be : Bool) (b : Buf) (o : Nat) (x : UInt32) {j : Nat} (hj : j < 4) :
    st32 be b o x (o + j) = byte32 x (if be then 3 - j else j) := by
  rw [st32, if_pos ⟨by omega, by omega⟩, Nat.add_sub_cancel_left, byte32_swap32 be x hj]

theorem byte16_ld16 (be : Bool) (b : Buf) (o : Nat) {j : Nat} (hj : j < 2) :
    byte16 (ld16 be b o) (if be then 1 - j else j) = b (o + j) := by
  rw [← byte16_swap16 be _ hj, swap16_ld16]
  have h := byte16_word16 (b o) (b (o + 1))
  match j, hj with
  | 0, _ => exact h.1
  | 1, _ => exact h.2

theorem st16_byte (be : Bool) (b : Buf) (o : Nat) (x : UInt16) {j : Nat} (hj : j < 2) :
    st16 be b o x (o + j) = byte16 x (if be then 1 - j else j) := by
  rw [st16, if_pos ⟨by omega, by omega⟩, Nat.add_sub_cancel_left, byte16_swap16 be x hj]

theorem ld16_congr {be : Bool} {b b' : Buf} {o : Nat} (h : AgreeOn o (o + 2) b b') :
    ld16 be b' o = ld16 be b o := by
  simp only [ld16, h o (by omega) (by omega), h (o + 1) (by omega) (by omega)]

theorem ld32_congr {be : Bool} {b b' : Buf} {o : Nat} (h : AgreeOn o (o + 4) b b') :
    ld32 be b' o = ld32 be b o := by
  simp only [ld32, h o (by omega) (by omega), h (o + 1) (by omega) (by omega),
    h (o + 2) (by omega) (by omega), h (o + 3) (by omega) (by omega)]

theorem getBytes_congr {b b' : Buf} {o n : Nat} (h : AgreeOn o (o + n) b b') :
    getBytes b' o n = getBytes b o n := by
  unfold getBytes
  apply List.map_congr_left
  intro k hk
  have hk := List.mem_range.mp hk
  exact h (o + k) (by omega) (by omega)

@[simp] theorem getBytes_length (b : Buf) (o n : Nat) : (getBytes b o n).length = n := by
  simp [getBytes]

theorem getBytes_append (b : Buf) (o n m : Nat) :
    getBytes b o n ++ getBytes b (o + n) m = getBytes b o (n + m) := by
  unfold getBytes
  rw [List.range_add, List.map_append, List.map_map]
  congr 1
  apply List.map_congr_left
  intro k _
  simp only [Function.comp]
  rw [Nat.add_assoc]

@[simp] theorem st8_same (b : Buf) (o : Nat) (x : UInt8) : st8 b o x o = x := by simp [st8]

theorem st8_apply_ne {b : Buf} {o i : Nat} {x : UInt8} (h : i ≠ o) : st8 b o x i = b i := by
  simp [st8, h]

theorem st16_apply_ne {be : Bool} {b : Buf} {o i : Nat} {x : UInt16} (h : i < o ∨ o + 2 ≤ i) :
    st16 be b o x i = b i := by
  unfold st16
  rw [if_neg (by omega)]

theorem st32_apply_ne {be : Bool} {b : Buf} {o i : Nat} {x : UInt32} (h : i < o ∨ o + 4 ≤ i) :
    st32 be b o x i = b i := by
  unfold st32
  rw [if_neg (by omega)]

theorem stBytes_apply_ne {b : Buf} {o i : Nat} {l : List UInt8} (h : i < o ∨ o + l.length ≤ i) :
    stBytes b o l i = b i := by
  unfold stBytes
  rw [if_neg (by omega)]

theorem stBytes_apply {b : Buf} {o i : Nat} {l : List UInt8} (h : o ≤ i) (h' : i < o + l.length) :
    stBytes b o l i = l.getD (i - o) 0 := by
  unfold stBytes
  rw [if_pos ⟨h, h'⟩]

theorem ld16_st16 (be : Bool) (b : Buf) (o : Nat) (x : UInt16) :
    ld16 be (st16 be b o x) o = x := by
  have h0 : st16 be b o x o = byte16 (swap16 be x) 0 := by simp [st16]
  have h1 : st16 be b o x (o + 1) = byte16 (swap16 be x) 1 := by simp [st16]
  rw [ld16, h0, h1, word16_bytes, swap16_swap16]

theorem ld32_st32 (be : Bool) (b : Buf) (o : Nat) (x : UInt32) :
    ld32 be (st32 be b o x) o = x := by
  have h0 : st32 be b o x o = byte32 (swap32 be x) 0 := by simp [st32]
  have h1 : st32 be b o x (o + 1) = byte32 (swap32 be x) 1 := by simp [st32]
  have h2 : st32 be b o x (o + 2) = byte32 (swap32 be x) 2 := by simp [st32]
  have h3 : st32 be b o x (o + 3) = byte32 (swap32 be x) 3 := by simp [st32]
  rw [ld32, h0, h1, h2, h3, word32_bytes, swap32_swap32]

/-- What was loaded from a place can be stored there again. -/
theorem st32_ld32 (be : Bool) (b : Buf) (o : Nat) : st32 be b o (ld32 be b o) = b := by
  funext i
  by_cases hin : o ≤ i ∧ i < o + 4
  · obtain ⟨j, rfl⟩ : ∃ j, i = o + j := ⟨i - o, by omega⟩
    have hj : j < 4 := by omega
    rw [st32_byte be b o _ hj, byte32_ld32 be b o hj]
  · exact st32_apply_ne (by omega)

/-- A store replaces what was stored before. -/
theorem st32_st32 (be : Bool) (b : Buf) (o : Nat) (x y : UInt32) :
    st32 be (st32 be b o x) o y = st32 be b o y := by
  funext i
  by_cases hin : o ≤ i ∧ i < o + 4
  · show (if _ then _ else _) = if _ then _ else _
    rw [if_pos hin, if_pos hin]
  · have hout : i < o ∨ o + 4 ≤ i := by omega
    rw [st32_apply_ne hout, st32_apply_ne hout, st32_apply_ne hout]

/-- A 32-bit load is not changed by a store of 32 bits that does not overlap it. -/
theorem ld32_st32_ne {be be' : Bool} {b : Buf} {o o' : Nat} {x : UInt32}
    (h : o' + 4 ≤ o ∨ o + 4 ≤ o') : ld32 be (st32 be' b o x) o' = ld32 be b o' :=
  ld32_congr fun i h1 h2 => st32_apply_ne (by omega)

theorem ld32_st16_ne {be be' : Bool} {b : Buf} {o o' : Nat} {x : UInt16}
    (h : o' + 4 ≤ o ∨ o + 2 ≤ o') : ld32 be (st16 be' b o x) o' = ld32 be b o' :=
  ld32_congr fun i h1 h2 => st16_apply_ne (by omega)

theorem ld16_st32_ne {be be' : Bool} {b : Buf} {o o' : Nat} {x : UInt32}
    (h : o' + 2 ≤ o ∨ o + 4 ≤ o') : ld16 be (st32 be' b o x) o' = ld16 be b o' :=
  ld16_congr fun i h1 h2 => st32_apply_ne (by omega)

theorem ld16_st16_ne {be be' : Bool} {b : Buf} {o o' : Nat} {x : UInt16}
    (h : o' + 2 ≤ o ∨ o + 2 ≤ o') : ld16 be (st16 be' b o x) o' = ld16 be b o' :=
  ld16_congr fun i h1 h2 => st16_apply_ne (by omega)

theorem ld32_zeroed (be : Bool) (o : Nat) : ld32 be zeroed o = 0 := by
  cases be with
  | false => rfl
  | true => show swap32 true (word32 0 0 0 0) = 0; decide

end Cheviot.Bytes
