import Mt5Open.Lib.LittleEndian

/-!
# Bytes and raw doubles

The vocabulary that every codec of the repository shares.  A byte string is a
list of bytes.  A double is its 64-bit pattern: records are read and written
bit for bit, and no codec does arithmetic on the doubles it carries.
-/

namespace Mt5Open

open Lib

/-- A byte string. -/
abbrev Bytes := List UInt8

/-- A double, by its 64-bit pattern. -/
structure F64 where
  bits : Nat
  deriving DecidableEq, Repr

namespace F64

/-- `0.0`. -/
def zero : F64 := ⟨0⟩

/-- `x != 0.0`.  Both zeros are equal to `0.0`, and a NaN is not. -/
def isNonzero (x : F64) : Bool := x.bits != 0 && x.bits != 2 ^ 63

/-- `f64::from_le_bytes`. -/
def fromLe (bytes : Bytes) : F64 := ⟨LittleEndian.decode bytes⟩

end F64

/-- The bytes `[start, start + size)` of a string, fewer when it ends before. -/
def slice (bytes : Bytes) (start size : Nat) : Bytes := (bytes.drop start).take size

/-- `bytes[start..start + size]`, which the source may write only in range. -/
def part (bytes : Bytes) (start size : Nat) (_h : start + size ≤ bytes.length) : Bytes :=
  slice bytes start size

theorem length_slice {bytes : Bytes} {start size : Nat} (h : start + size ≤ bytes.length) :
    (slice bytes start size).length = size := by
  simp only [slice, List.length_take, List.length_drop]
  omega

/-- The bytes from `start` on are those of the slice and those behind it. -/
theorem slice_append_drop (bytes : Bytes) (start size : Nat) :
    slice bytes start size ++ bytes.drop (start + size) = bytes.drop start := by
  rw [slice, ← List.drop_drop, List.take_append_drop]

/-- A slice in range does not depend on what stands behind the bytes. -/
theorem slice_append {bytes : Bytes} {start size : Nat} (more : Bytes)
    (h : start + size ≤ bytes.length) :
    slice (bytes ++ more) start size = slice bytes start size := by
  simp only [slice]
  rw [List.drop_append_of_le_length (by omega), List.take_append_of_le_length]
  rw [List.length_drop]
  omega

/-- The bytes of one chunk among several. -/
theorem slice_flatten {chunks : List Bytes} {i start size : Nat} {chunk : Bytes}
    (hi : chunks[i]? = some chunk) (hstart : (chunks.take i).flatten.length = start)
    (hsize : chunk.length = size) : slice chunks.flatten start size = chunk := by
  obtain ⟨hlt, hchunk⟩ := List.getElem?_eq_some_iff.mp hi
  rw [slice, ← List.take_append_drop i chunks, List.flatten_append, List.drop_left' hstart,
    List.drop_eq_getElem_cons hlt, hchunk, List.flatten_cons, List.take_left' hsize]

end Mt5Open
