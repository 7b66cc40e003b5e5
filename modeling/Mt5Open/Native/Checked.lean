import Mt5Open.Lib.Refinement
import Mt5Open.Native.Inflate

/-!
# Checked arithmetic

The operations of the program that can panic: `usize` arithmetic, `i128` arithmetic, and
the indices of a slice.
-/

namespace Mt5Open.Native.Checked

/-- `a + b` in 64 bits. -/
def add (a b : Nat) : Except Fault Nat := if a + b < 2 ^ 64 then .ok (a + b) else .error .panicked

def sub (a b : Nat) : Except Fault Nat := if b ≤ a then .ok (a - b) else .error .panicked

def mul (a b : Nat) : Except Fault Nat := if a * b < 2 ^ 64 then .ok (a * b) else .error .panicked

/-- The result of an operation in `i128`. -/
def i128 (x : Int) : Except Fault Int :=
  if -2 ^ 127 ≤ x ∧ x < 2 ^ 127 then .ok x else .error .panicked

/-- `bytes[i]`. -/
def index (bytes : Bytes) (i : Nat) : Except Fault UInt8 :=
  match bytes[i]? with
  | some byte => .ok byte
  | none => .error .panicked

/-- `bytes[start..stop]`. -/
def range (bytes : Bytes) (start stop : Nat) : Except Fault Bytes :=
  if start ≤ stop ∧ stop ≤ bytes.length then .ok (slice bytes start (stop - start))
  else .error .panicked

theorem add_of_lt {a b : Nat} (h : a + b < 2 ^ 64) : add a b = .ok (a + b) := if_pos h

theorem sub_of_le {a b : Nat} (h : b ≤ a) : sub a b = .ok (a - b) := if_pos h

theorem mul_of_lt {a b : Nat} (h : a * b < 2 ^ 64) : mul a b = .ok (a * b) := if_pos h

theorem i128_of_natAbs_lt {x : Int} (h : x.natAbs < 2 ^ 127) : i128 x = .ok x :=
  if_pos (by omega)

theorem index_of_lt {bytes : Bytes} {i : Nat} (h : i < bytes.length) :
    index bytes i = .ok bytes[i] := by
  rw [index, List.getElem?_eq_getElem h]

theorem add_eq_ok {a b c : Nat} (h : add a b = .ok c) : c = a + b := by
  unfold add at h
  split at h
  · exact (Except.ok.inj h).symm
  · cases h

theorem add_lt {a b c : Nat} (h : add a b = .ok c) : a + b < 2 ^ 64 := by
  unfold add at h
  split at h
  · assumption
  · cases h

end Mt5Open.Native.Checked
