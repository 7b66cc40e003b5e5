import Mathlib.Algebra.Order.Field.Basic

/-!
# Exact numbers with infinities and NaN

A floating-point number is a number of a field, an infinity or NaN.  `Extended K` has
these three shapes with exact arithmetic on the finite ones, so no operation rounds or
overflows.  The two zeros are one number here, and a quotient by it has the sign of its
dividend.

A comparison with NaN is false, whichever way round it is written.
-/

namespace Mt5Open.Lib

inductive Extended (K : Type*) where
  | nan
  | infinite (negative : Bool)
  | finite (x : K)
  deriving DecidableEq

namespace Extended

variable {K : Type*}

def isFinite : Extended K → Bool
  | finite _ => true
  | _ => false

@[simp] theorem isFinite_finite (x : K) : (finite x).isFinite = true := rfl

theorem isFinite_iff {x : Extended K} : x.isFinite = true ↔ ∃ a, x = finite a := by
  cases x with
  | finite a => exact iff_of_true rfl ⟨a, rfl⟩
  | nan => exact ⟨nofun, nofun⟩
  | infinite _ => exact ⟨nofun, nofun⟩

section Order

variable [LinearOrder K]

/-- `a < b`. -/
def Less : Extended K → Extended K → Prop
  | infinite true, infinite false => True
  | infinite true, finite _ => True
  | finite _, infinite false => True
  | finite a, finite b => a < b
  | _, _ => False

instance : LT (Extended K) := ⟨Less⟩

/-- `a <= b`. -/
instance : LE (Extended K) := ⟨fun a b => a < b ∨ (a = b ∧ a ≠ nan)⟩

instance : DecidableLT (Extended K) := fun a b => by
  show Decidable (Less a b)
  unfold Less
  split <;> infer_instance

instance : DecidableLE (Extended K) := fun a b =>
  inferInstanceAs (Decidable (a < b ∨ (a = b ∧ a ≠ nan)))

@[simp] theorem finite_lt {a b : K} : finite a < finite b ↔ a < b := Iff.rfl

@[simp] theorem finite_le {a b : K} : finite a ≤ finite b ↔ a ≤ b := by
  show finite a < finite b ∨ _ ↔ _
  rw [finite_lt, le_iff_lt_or_eq]
  simp

@[simp] theorem not_nan_lt (a : Extended K) : ¬nan < a := nofun

@[simp] theorem not_lt_nan (a : Extended K) : ¬a < nan := by
  cases a with
  | nan => exact nofun
  | infinite negative => cases negative <;> exact nofun
  | finite a => exact nofun

@[simp] theorem not_le_nan (a : Extended K) : ¬a ≤ nan := by
  rintro (h | ⟨rfl, h⟩)
  · exact not_lt_nan a h
  · exact h rfl

/-- A number that is not at most `b` is above it, or it is NaN. -/
theorem not_le_finite_iff {a : Extended K} {b : K} : ¬a ≤ finite b ↔ a = nan ∨ finite b < a := by
  cases a with
  | nan =>
    refine iff_of_true ?_ (.inl rfl)
    rintro (h | ⟨-, h⟩)
    · exact h
    · exact h rfl
  | infinite negative =>
    cases negative with
    | true => exact iff_of_false (not_not_intro (.inl trivial)) (by rintro (h | h) <;> cases h)
    | false => exact iff_of_true (by rintro (h | ⟨h, -⟩) <;> cases h) (.inr trivial)
  | finite a => simp

end Order

section Arithmetic

variable [Field K]

def add : Extended K → Extended K → Extended K
  | finite a, finite b => finite (a + b)
  | infinite a, infinite b => if a = b then infinite a else nan
  | infinite a, finite _ => infinite a
  | finite _, infinite b => infinite b
  | _, _ => nan

instance : Add (Extended K) := ⟨add⟩

@[simp] theorem finite_add (a b : K) : finite a + finite b = finite (a + b) := rfl

variable [LinearOrder K]

def mul : Extended K → Extended K → Extended K
  | finite a, finite b => finite (a * b)
  | infinite a, infinite b => infinite (a != b)
  | infinite a, finite b => if b = 0 then nan else infinite (a != decide (b < 0))
  | finite a, infinite b => if a = 0 then nan else infinite (decide (a < 0) != b)
  | _, _ => nan

def div : Extended K → Extended K → Extended K
  | finite a, finite b =>
    if b ≠ 0 then finite (a / b) else if a = 0 then nan else infinite (decide (a < 0))
  | infinite a, finite b => infinite (a != decide (b < 0))
  | finite _, infinite _ => finite 0
  | _, _ => nan

instance : Mul (Extended K) := ⟨mul⟩

instance : Div (Extended K) := ⟨div⟩

/-- The larger one of two numbers; NaN counts as missing. -/
def max (a b : Extended K) : Extended K := if a = nan then b else if a < b then b else a

@[simp] theorem finite_mul (a b : K) : finite a * finite b = finite (a * b) := rfl

end Arithmetic

end Extended

end Mt5Open.Lib
