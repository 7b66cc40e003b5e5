import Mathlib.Algebra.Order.Floor.Ring
import Mathlib.Algebra.Ring.Parity
import Mathlib.Data.Int.Log
import Mathlib.Tactic.FieldSimp
import Mathlib.Tactic.Linarith
import Mathlib.Tactic.Ring

/-!
# Rounding to so many significant bits

`nearest` is the nearest integer, and the even one of two.  `round p` is the
nearest of the numbers with `p` significant bits: the integer multiples of the
gap `ulp p` between neighbours of the size of its argument.  There is no largest
number and no smallest one here, and the arguments are not negative.
-/

namespace Mt5Open.Lib.Rounding

variable {K : Type*} [Field K] [LinearOrder K] [IsStrictOrderedRing K] [FloorRing K]

/-! ## The nearest integer -/

/-- The nearest integer, and the even one of two. -/
def nearest (x : K) : ℤ :=
  if Int.fract x < 1 / 2 ∨ Int.fract x = 1 / 2 ∧ Even ⌊x⌋ then ⌊x⌋ else ⌊x⌋ + 1

omit [IsStrictOrderedRing K] in
theorem floor_le_nearest (x : K) : ⌊x⌋ ≤ nearest x := by
  rw [nearest]
  split
  · exact le_rfl
  · exact (lt_add_one _).le

/-- An integer, and less than one more. -/
theorem nearest_add {z : ℤ} {rest : K} (hnonneg : 0 ≤ rest) (hlt : rest < 1) :
    nearest ((z : K) + rest) = if rest < 1 / 2 ∨ rest = 1 / 2 ∧ Even z then z else z + 1 := by
  have hfloor : ⌊(z : K) + rest⌋ = z := Int.floor_eq_iff.mpr ⟨by linarith, by linarith⟩
  have hfract : Int.fract ((z : K) + rest) = rest := by
    rw [Int.fract, hfloor, add_sub_cancel_left]
  rw [nearest, hfract, hfloor]

/-- An integer, and less than one less. -/
theorem nearest_sub {z : ℤ} {rest : K} (hnonneg : 0 ≤ rest) (hlt : rest < 1) :
    nearest ((z : K) - rest) = if rest < 1 / 2 ∨ rest = 1 / 2 ∧ Even z then z else z - 1 := by
  rcases hnonneg.eq_or_lt with rfl | hpos
  · have hhalf : (0 : K) < 1 / 2 := by linarith
    rw [sub_zero, ← add_zero (z : K), nearest_add le_rfl one_pos, if_pos (.inl hhalf),
      if_pos (.inl hhalf)]
  · have hshift : (z : K) - rest = ((z - 1 : ℤ) : K) + (1 - rest) := by
      push_cast
      ring
    have hlt' : 1 - rest < 1 / 2 ↔ 1 / 2 < rest := ⟨fun h => by linarith, fun h => by linarith⟩
    have heq : 1 - rest = 1 / 2 ↔ rest = 1 / 2 := ⟨fun h => by linarith, fun h => by linarith⟩
    rw [hshift, nearest_add (by linarith) (by linarith)]
    simp only [hlt', heq, Int.even_sub_one, sub_add_cancel]
    rcases lt_trichotomy rest (1 / 2) with h | h | h
    · rw [if_neg, if_pos (.inl h)]
      rintro (hgt | ⟨heq, -⟩)
      · exact lt_asymm h hgt
      · exact h.ne heq
    · by_cases heven : Even z <;> simp [h, heven]
    · rw [if_pos (.inl h), if_neg]
      rintro (hlt | ⟨heq, -⟩)
      · exact lt_asymm h hlt
      · exact h.ne' heq

/-- What is nearer to an integer than a half is rounded to it. -/
theorem nearest_of_abs_lt {x : K} {z : ℤ} (h : |x - z| < 1 / 2) : nearest x = z := by
  obtain ⟨hlo, hhi⟩ := abs_lt.mp h
  rcases le_or_gt (z : K) x with hle | hlt
  · have hnear := @nearest_add K _ _ _ _ z (x - z) (by linarith) (by linarith)
    rwa [add_sub_cancel, if_pos (.inl hhi)] at hnear
  · have hnear := @nearest_sub K _ _ _ _ z (z - x) (by linarith) (by linarith)
    rwa [sub_sub_cancel, if_pos (.inl (by linarith))] at hnear

@[simp] theorem nearest_intCast (z : ℤ) : nearest (z : K) = z :=
  nearest_of_abs_lt (by rw [sub_self, abs_zero]; linarith)

/-- The quotient of two natural numbers, when the remainder is small. -/
theorem nearest_div_of_lt {a b : ℕ} (h : 2 * (a % b) < b) :
    nearest ((a : K) / b) = (a / b : ℕ) := by
  have hb : (0 : K) < b := by exact_mod_cast Nat.zero_lt_of_lt h
  have hlt : 2 * ((a % b : ℕ) : K) < b := by exact_mod_cast h
  have hdiv : (b : K) * (a / b : ℕ) + (a % b : ℕ) = a := by exact_mod_cast Nat.div_add_mod a b
  have hsum : (a : K) / b = ((a / b : ℕ) : ℤ) + ((a % b : ℕ) : K) / b := by
    rw [div_eq_iff hb.ne', add_mul, div_mul_cancel₀ _ hb.ne', Int.cast_natCast, mul_comm, hdiv]
  rw [hsum]
  have hhalf : ((a % b : ℕ) : K) / b < 1 / 2 := by
    rw [div_lt_iff₀ hb]
    linarith
  rw [nearest_add (div_nonneg (Nat.cast_nonneg _) hb.le) (by linarith), if_pos (.inl hhalf)]

/-- The quotient of two natural numbers, when the remainder is large. -/
theorem nearest_div_of_gt {a b : ℕ} (hb : 0 < b) (h : b < 2 * (a % b)) :
    nearest ((a : K) / b) = (a / b + 1 : ℕ) := by
  have hmod : ((a % b : ℕ) : K) < b := by exact_mod_cast Nat.mod_lt a hb
  have hlt : (b : K) < 2 * (a % b : ℕ) := by exact_mod_cast h
  have hb : (0 : K) < b := by exact_mod_cast hb
  have hdiv : (b : K) * (a / b : ℕ) + (a % b : ℕ) = a := by exact_mod_cast Nat.div_add_mod a b
  have hsum : (a : K) / b = ((a / b + 1 : ℕ) : ℤ) - (b - (a % b : ℕ)) / b := by
    rw [eq_sub_iff_add_eq, ← add_div, div_eq_iff hb.ne', ← hdiv, Int.cast_natCast, Nat.cast_succ]
    ring
  rw [hsum]
  have hhalf : ((b : K) - (a % b : ℕ)) / b < 1 / 2 := by
    rw [div_lt_iff₀ hb]
    linarith
  rw [nearest_sub (div_pos (sub_pos.mpr hmod) hb).le (by linarith), if_pos (.inl hhalf)]

/-! ## Significant bits -/

/-- The gap between the numbers with `p` significant bits, at the size of `x`. -/
def ulp (p : ℕ) (x : K) : K := 2 ^ (Int.log 2 x + 1 - p)

/-- The nearest number with `p` significant bits. -/
def round (p : ℕ) (x : K) : K := nearest (x / ulp p x) * ulp p x

theorem ulp_of_mem {p : ℕ} {e : ℤ} {x : K} (hlo : 2 ^ e ≤ x) (hhi : x < 2 ^ (e + 1)) :
    ulp p x = 2 ^ (e + 1 - p) := by
  have hpos : 0 < x := lt_of_lt_of_le (zpow_pos two_pos e) hlo
  have hlog : Int.log 2 x = e := by
    refine le_antisymm ?_ ?_
    · exact Int.lt_add_one_iff.mp
        ((Int.lt_zpow_iff_log_lt one_lt_two hpos).mp (by exact_mod_cast hhi))
    · exact (Int.zpow_le_iff_le_log one_lt_two hpos).mp (by exact_mod_cast hlo)
  rw [ulp, hlog]

/-- A number between two powers of two is rounded to a multiple of their gap. -/
theorem round_of_mem {p : ℕ} {e : ℤ} {x : K} (hlo : 2 ^ e ≤ x) (hhi : x < 2 ^ (e + 1)) :
    round p x = nearest (x / 2 ^ (e + 1 - p)) * 2 ^ (e + 1 - p) := by
  rw [round, ulp_of_mem hlo hhi]

/-- A number that `2 ^ k` takes to the integers with `p` bits. -/
theorem round_of_scaled {p k : ℕ} {x : K} (hlo : 2 ^ p ≤ x * 2 ^ k)
    (hhi : x * 2 ^ k < 2 ^ (p + 1)) :
    round (p + 1) x = nearest (x * 2 ^ k) / 2 ^ k := by
  have htwo : (2 : K) ≠ 0 := two_ne_zero
  have hscale : (0 : K) < 2 ^ k := pow_pos two_pos k
  have hlo' : (2 : K) ^ ((p : ℤ) - k) ≤ x := by
    rw [zpow_sub₀ htwo, zpow_natCast, zpow_natCast]
    exact (div_le_iff₀ hscale).mpr hlo
  have hhi' : x < (2 : K) ^ ((p : ℤ) - k + 1) := by
    rw [sub_add_eq_add_sub, zpow_sub₀ htwo, ← Nat.cast_succ, zpow_natCast, zpow_natCast]
    exact (lt_div_iff₀ hscale).mpr hhi
  have hgap : (2 : K) ^ ((p : ℤ) - k + 1 - (p + 1 : ℕ)) = (2 ^ k)⁻¹ := by
    rw [← zpow_natCast, ← zpow_neg]
    congr 1
    push_cast
    ring
  rw [round_of_mem hlo' hhi', hgap, div_inv_eq_mul, div_eq_mul_inv]

@[simp] theorem round_zero (p : ℕ) : round p (0 : K) = 0 := by
  rw [round, zero_div, ← Int.cast_zero, nearest_intCast, Int.cast_zero, zero_mul]

theorem round_pos {p : ℕ} {x : K} (hp : 0 < p) (hx : 0 < x) : 0 < round p x := by
  have hulp : 0 < ulp p x := zpow_pos two_pos _
  have hone : 1 ≤ x / ulp p x := by
    rw [le_div_iff₀ hulp, one_mul, ulp]
    have hlo := Int.zpow_log_le_self one_lt_two hx
    push_cast at hlo
    refine le_trans (zpow_le_zpow_right₀ one_lt_two.le ?_) hlo
    omega
  have hnear : (1 : ℤ) ≤ nearest (x / ulp p x) :=
    (Int.le_floor.mpr (by exact_mod_cast hone)).trans (floor_le_nearest _)
  exact mul_pos (by exact_mod_cast hnear) hulp

/-- A power of two only moves the exponent. -/
theorem round_mul_zpow {p : ℕ} {x : K} (hx : 0 < x) (k : ℤ) :
    round p (x * 2 ^ k) = round p x * 2 ^ k := by
  have htwo : (2 : K) ≠ 0 := two_ne_zero
  have hscale : (0 : K) < 2 ^ k := zpow_pos two_pos k
  have hlo := Int.zpow_log_le_self one_lt_two hx
  have hhi := Int.lt_zpow_succ_log_self one_lt_two x
  push_cast at hlo hhi
  rw [round_of_mem hlo hhi]
  have hlo' : (2 : K) ^ (Int.log 2 x + k) ≤ x * 2 ^ k := by
    rw [zpow_add₀ htwo]
    exact mul_le_mul_of_nonneg_right hlo hscale.le
  have hhi' : x * 2 ^ k < (2 : K) ^ (Int.log 2 x + k + 1) := by
    rw [add_right_comm, zpow_add₀ htwo _ k]
    exact mul_lt_mul_of_pos_right hhi hscale
  have hgap : (2 : K) ^ (Int.log 2 x + k + 1 - p) = 2 ^ (Int.log 2 x + 1 - p) * 2 ^ k := by
    rw [← zpow_add₀ htwo]
    congr 1
    ring
  rw [round_of_mem hlo' hhi', hgap, mul_div_mul_right _ _ hscale.ne', mul_assoc]

/-- A natural number with at most `p` bits is not rounded. -/
theorem round_natCast {p n : ℕ} (h : n < 2 ^ p) : round p (n : K) = n := by
  rcases Nat.eq_zero_or_pos n with rfl | hpos
  · rw [Nat.cast_zero, round_zero]
  have hlog : Int.log 2 (n : K) + 1 ≤ p := by
    rw [Int.log_natCast]
    exact_mod_cast Nat.log_lt_of_lt_pow hpos.ne' h
  obtain ⟨k, hk⟩ := Int.eq_ofNat_of_zero_le (sub_nonneg.mpr hlog)
  have hulp : ulp p (n : K) = (2 ^ k)⁻¹ := by
    rw [ulp, ← neg_sub, zpow_neg, hk, zpow_natCast]
  have hint : (n : K) / (2 ^ k)⁻¹ = ((n * 2 ^ k : ℕ) : ℤ) := by
    rw [div_inv_eq_mul]
    push_cast
    ring
  rw [round, hulp, hint, nearest_intCast]
  push_cast
  exact mul_inv_cancel_right₀ (pow_ne_zero k two_ne_zero) _

end Mt5Open.Lib.Rounding
