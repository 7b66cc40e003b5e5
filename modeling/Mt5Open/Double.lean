import Mathlib.Data.Rat.Defs
import Mathlib.Algebra.Order.Ring.Rat
import Mathlib.Tactic.FieldSimp
import Mathlib.Tactic.Positivity
import Mt5Open.Bytes
import Mt5Open.Lib.Extended

/-!
# The values of doubles

A pattern has a sign bit, eleven bits of exponent and 52 bits of fraction.  The two
zeros have one value.
-/

namespace Mt5Open.F64

open Lib

def negative (x : F64) : Bool := x.bits / 2 ^ 63 % 2 = 1

def exponent (x : F64) : Nat := x.bits / 2 ^ 52 % 2 ^ 11

def fraction (x : F64) : Nat := x.bits % 2 ^ 52

/-- The magnitude of a finite double.  The least exponent has no hidden bit. -/
def magnitude (x : F64) : ℚ :=
  if x.exponent = 0 then x.fraction / 2 ^ 1074
  else (2 ^ 52 + x.fraction) * 2 ^ x.exponent / 2 ^ 1075

def value (x : F64) : Extended ℚ :=
  if x.exponent = 2047 then
    if x.fraction = 0 then .infinite x.negative else .nan
  else .finite (if x.negative then -x.magnitude else x.magnitude)

/-- `x.is_finite()`. -/
def isFinite (x : F64) : Bool := x.value.isFinite

theorem magnitude_eq_zero {x : F64} : x.magnitude = 0 ↔ x.exponent = 0 ∧ x.fraction = 0 := by
  unfold magnitude
  split
  · rename_i h
    simp [h]
  · rename_i h
    refine iff_of_false (ne_of_gt ?_) fun hzero => h hzero.1
    positivity

/-- A pattern compares unequal to `0.0` exactly when its value is not zero. -/
theorem isNonzero_iff {x : F64} (h : x.bits < 2 ^ 64) :
    x.isNonzero = true ↔ x.value ≠ .finite 0 := by
  have hzero : x.value = .finite 0 ↔ x.exponent = 0 ∧ x.fraction = 0 := by
    unfold value
    by_cases hexponent : x.exponent = 2047
    · rw [if_pos hexponent]
      refine iff_of_false ?_ fun hzero => absurd (hexponent.symm.trans hzero.1) (by decide)
      split
      · exact nofun
      · exact nofun
    · rw [if_neg hexponent, ← magnitude_eq_zero, Extended.finite.injEq]
      split
      · exact neg_eq_zero
      · exact Iff.rfl
  rw [Ne, hzero, exponent, fraction, isNonzero]
  simp only [Bool.and_eq_true, bne_iff_ne, ne_eq]
  omega

end Mt5Open.F64
