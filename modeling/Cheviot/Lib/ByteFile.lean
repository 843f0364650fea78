import Cheviot.Lib.Bytes

/-!
# Files of bytes

What a file is to its users: a size, and a byte at every position below it. From
the size on a file is zero, so that files are equal when their bytes are.

* `ByteFile.write` — bytes put in at a position; the file grows to their end, and
  is zero in between.
* `ByteFile.read` — the part of the file that lies in a range.
* `ByteFile.ofRow`, `ByteFile.cut` — the beginning of a row of bytes, and of a file.
-/

namespace Cheviot.Files

open Cheviot.Bytes

/-- A file: nothing follows its last byte. -/
@[ext] structure ByteFile where
  size : Nat
  byte : Nat → UInt8
  past : ∀ q, size ≤ q → byte q = 0

/-- A file without bytes. -/
def ByteFile.empty : ByteFile := ⟨0, fun _ => 0, fun _ _ => rfl⟩

/-- The file with `data` written at `pos`. -/
def ByteFile.write (f : ByteFile) (pos : Nat) (data : List UInt8) : ByteFile where
  size := max f.size (pos + data.length)
  byte q := if pos ≤ q ∧ q < pos + data.length then data.getD (q - pos) 0 else f.byte q
  past q hq := by
    rw [if_neg (by omega)]
    exact f.past q (by omega)

/-- The bytes of the file from `pos` on, at most `count` of them. -/
def ByteFile.read (f : ByteFile) (pos count : Nat) : List UInt8 :=
  getBytes f.byte pos (min count (f.size - pos))

/-- The first `size` bytes of a row. -/
def ByteFile.ofRow (byte : Nat → UInt8) (size : Nat) : ByteFile where
  size := size
  byte q := if q < size then byte q else 0
  past _ hq := if_neg (Nat.not_lt.mpr hq)

/-- The file without what is at `size` and behind it. -/
def ByteFile.cut (f : ByteFile) (size : Nat) : ByteFile where
  size := min size f.size
  byte q := if q < size then f.byte q else 0
  past q hq := by
    split
    · exact f.past q (by omega)
    · rfl

section Rows

variable {row row' : Nat → UInt8} {size pos : Nat} {data : List UInt8}

theorem ByteFile.read_ofRow (pos count : Nat) :
    (ofRow row size).read pos count = getBytes row pos (min count (size - pos)) := by
  refine List.map_congr_left fun k hk => if_pos ?_
  have hlt := List.mem_range.mp hk
  have hsize : (ofRow row size).size = size := rfl
  omega

theorem ByteFile.cut_ofRow {n : Nat} (h : n ≤ size) : (ofRow row size).cut n = ofRow row n := by
  refine ByteFile.ext (Nat.min_eq_left h) (funext fun q => ?_)
  show (if _ then if _ then _ else _ else _) = if _ then _ else _
  by_cases hq : q < n
  · rw [if_pos hq, if_pos hq, if_pos (Nat.lt_of_lt_of_le hq h)]
  · rw [if_neg hq, if_neg hq]

/-- Where the data has been put into a row, and the rest is as it was, it has been written to
the file. -/
theorem ByteFile.ofRow_write (hpos : pos ≤ size)
    (hnew : ∀ j, j < data.length → row' (pos + j) = data.getD j 0)
    (hold : ∀ q, q < pos ∨ pos + data.length ≤ q → q < size → row' q = row q) :
    ofRow row' (max size (pos + data.length)) = (ofRow row size).write pos data := by
  refine ByteFile.ext rfl (funext fun q => ?_)
  show (if _ then _ else _) = if _ then _ else if _ then _ else _
  by_cases hin : pos ≤ q ∧ q < pos + data.length
  · have hbyte := hnew (q - pos) (by omega)
    rw [Nat.add_sub_cancel' hin.1] at hbyte
    rw [if_pos hin, if_pos (by omega), hbyte]
  · rw [if_neg hin]
    by_cases hq : q < size
    · rw [if_pos hq, if_pos (by omega), hold q (by omega) hq]
    · rw [if_neg hq, if_neg (by omega)]

end Rows

end Cheviot.Files
