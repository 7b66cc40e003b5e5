import Mt5Open.Webterm.Trade
import Mathlib.Algebra.Order.Floor.Semifield
import Mathlib.Tactic.NormNum

/-!
# Volumes that are read and written back

A volume is a number of units.  The book divides it to lots, and an operation
multiplies the lots and cuts off the fraction.  The quotient and the product are
rounded, and the product can end one step below the volume.

All of it depends on the 53-bit significand of the volume alone: the first
sections follow a significand through the quotient and the product, and a volume is
then a significand with an exponent.
-/

namespace Mt5Open.Webterm.Trade

open Lib Rounding

/-! ## A significand -/

/-- What stands in the record of an operation for a significand: the quotient and the
product, both rounded. -/
def back (m : ℕ) : ℚ := Rounding.round 53 (Rounding.round 53 (m / LOT_MULTIPLIER) * LOT_MULTIPLIER)

/-- A number of the size of a significand is rounded to an integer. -/
theorem round_significand {x : ℚ} (hlo : 2 ^ 52 ≤ x) (hhi : x < 2 ^ 53) :
    Rounding.round 53 x = nearest x := by
  have h := @round_of_scaled ℚ _ _ _ _ 52 0 x
  rw [pow_zero, mul_one, div_one] at h
  exact h hlo hhi

/-- The quotient of a significand, which `2 ^ k` takes to 53 bits. -/
theorem round_quotient {m k : ℕ} (hlo : 10 ^ 8 * 2 ^ 52 ≤ m * 2 ^ k)
    (hhi : m * 2 ^ k < 10 ^ 8 * 2 ^ 53) :
    Rounding.round 53 (m / LOT_MULTIPLIER) =
      nearest (((m * 2 ^ k : ℕ) : ℚ) / (10 ^ 8 : ℕ)) / 2 ^ k := by
  have hlo' : (10 ^ 8 * 2 ^ 52 : ℚ) ≤ (m * 2 ^ k : ℕ) := by exact_mod_cast hlo
  have hhi' : ((m * 2 ^ k : ℕ) : ℚ) < 10 ^ 8 * 2 ^ 53 := by exact_mod_cast hhi
  have hscale : (m : ℚ) / LOT_MULTIPLIER * 2 ^ k = ((m * 2 ^ k : ℕ) : ℚ) / (10 ^ 8 : ℕ) := by
    rw [LOT_MULTIPLIER]
    push_cast
    ring
  rw [← hscale]
  refine @round_of_scaled ℚ _ _ _ _ 52 k _ ?_ ?_
  · rw [hscale, le_div_iff₀ (by norm_num)]
    push_cast at hlo' ⊢
    linarith
  · rw [hscale, div_lt_iff₀ (by norm_num)]
    push_cast at hhi' ⊢
    linarith

/-- The exact quotient times its divisor leaves the remainder out. -/
theorem quotient_mul (m k : ℕ) :
    (((m * 2 ^ k / 10 ^ 8 : ℕ) : ℤ) : ℚ) / 2 ^ k * LOT_MULTIPLIER =
      m - (m * 2 ^ k % 10 ^ 8 : ℕ) / 2 ^ k := by
  have hsum := Nat.div_add_mod (m * 2 ^ k) (10 ^ 8)
  generalize m * 2 ^ k / 10 ^ 8 = quotient, m * 2 ^ k % 10 ^ 8 = rest at hsum ⊢
  have hsum : (10 ^ 8 * quotient + rest : ℚ) = m * 2 ^ k := by exact_mod_cast hsum
  rw [LOT_MULTIPLIER]
  field_simp
  push_cast
  linarith

/-- The product, when the quotient is rounded down. -/
theorem back_of_down {m k : ℕ} (hlo : 10 ^ 8 * 2 ^ 52 ≤ m * 2 ^ k)
    (hhi : m * 2 ^ k < 10 ^ 8 * 2 ^ 53) (hdown : 2 * (m * 2 ^ k % 10 ^ 8) < 10 ^ 8) :
    back m = Rounding.round 53 ((m : ℚ) - (m * 2 ^ k % 10 ^ 8 : ℕ) / 2 ^ k) := by
  rw [back, round_quotient hlo hhi, nearest_div_of_lt hdown]
  congr 1
  rw [quotient_mul]

/-- The product, when the quotient is rounded up. -/
theorem back_of_up {m k : ℕ} (hlo : 10 ^ 8 * 2 ^ 52 ≤ m * 2 ^ k)
    (hhi : m * 2 ^ k < 10 ^ 8 * 2 ^ 53) (hup : 10 ^ 8 < 2 * (m * 2 ^ k % 10 ^ 8)) :
    back m = Rounding.round 53 ((m : ℚ) + (10 ^ 8 - (m * 2 ^ k % 10 ^ 8 : ℕ)) / 2 ^ k) := by
  rw [back, round_quotient hlo hhi, nearest_div_of_gt (by norm_num) hup]
  congr 1
  rw [Nat.cast_succ, Int.cast_add, add_div, add_mul, quotient_mul, LOT_MULTIPLIER]
  ring

/-- A significand below `10 ^ 8 * 2 ^ 26`.  The quotient has one bit more behind the
point than the product needs. -/
theorem back_low {m : ℕ} (hlo : 2 ^ 52 ≤ m) (hhi : m < 10 ^ 8 * 2 ^ 26) : back m = m := by
  have hlo' : 10 ^ 8 * 2 ^ 52 ≤ m * 2 ^ 27 := by omega
  have hhi' : m * 2 ^ 27 < 10 ^ 8 * 2 ^ 53 := by omega
  have hm : (2 ^ 52 : ℚ) ≤ m := by exact_mod_cast hlo
  have hm' : (m : ℚ) < 10 ^ 8 * 2 ^ 26 := by exact_mod_cast hhi
  have hmod : m * 2 ^ 27 % 10 ^ 8 < 10 ^ 8 := Nat.mod_lt _ (by norm_num)
  rcases Nat.lt_or_ge (2 * (m * 2 ^ 27 % 10 ^ 8)) (10 ^ 8) with hdown | hup
  · -- the least significand of all is rounded up
    have hne : m ≠ 2 ^ 52 := by
      rintro rfl
      norm_num at hdown
    have hm : (2 ^ 52 + 1 : ℚ) ≤ m := by exact_mod_cast Nat.lt_of_le_of_ne hlo hne.symm
    rw [back_of_down hlo' hhi' hdown]
    generalize m * 2 ^ 27 % 10 ^ 8 = rest at hdown ⊢
    have hrest : (2 * rest : ℚ) < 10 ^ 8 := by exact_mod_cast hdown
    have hnonneg : (0 : ℚ) ≤ rest := Nat.cast_nonneg rest
    rw [round_significand (by linarith) (by linarith), nearest_of_abs_lt, Int.cast_natCast]
    rw [abs_lt]
    constructor <;> push_cast <;> linarith
  · have hup : 10 ^ 8 < 2 * (m * 2 ^ 27 % 10 ^ 8) := by omega
    rw [back_of_up hlo' hhi' hup]
    generalize m * 2 ^ 27 % 10 ^ 8 = rest at hmod hup ⊢
    have hrest : (10 ^ 8 : ℚ) < 2 * rest := by exact_mod_cast hup
    have hlt : (rest : ℚ) < 10 ^ 8 := by exact_mod_cast hmod
    rw [round_significand (by linarith) (by linarith), nearest_of_abs_lt, Int.cast_natCast]
    rw [abs_lt]
    constructor <;> push_cast <;> linarith

/-- A rest behind a significand that is rounded off: less than a half, or a half when
the significand is even. -/
def Ignored (m rest : ℕ) : Prop := rest < 2 ^ 25 ∨ rest = 2 ^ 25 ∧ Even m

instance (m rest : ℕ) : Decidable (Ignored m rest) :=
  inferInstanceAs (Decidable (rest < 2 ^ 25 ∨ rest = 2 ^ 25 ∧ Even m))

theorem Ignored.le {m rest : ℕ} (h : Ignored m rest) : rest ≤ 2 ^ 25 :=
  h.elim Nat.le_of_lt fun h => h.1.le

theorem ignored_iff {m rest : ℕ} :
    ((rest : ℚ) / 2 ^ 26 < 1 / 2 ∨ (rest : ℚ) / 2 ^ 26 = 1 / 2 ∧ Even (m : ℤ)) ↔
      Ignored m rest := by
  have hlt : (rest : ℚ) / 2 ^ 26 < 1 / 2 ↔ rest < 2 ^ 25 := by
    rw [div_lt_iff₀ (by norm_num), ← @Nat.cast_lt ℚ]
    norm_num
  have heq : (rest : ℚ) / 2 ^ 26 = 1 / 2 ↔ rest = 2 ^ 25 := by
    rw [div_eq_iff (by norm_num), ← @Nat.cast_inj ℚ]
    norm_num
  rw [hlt, heq, Int.even_coe_nat, Ignored]

/-- A larger significand, when the quotient is rounded down: the product is the
significand or one less. -/
theorem back_high_down {m : ℕ} (hlo : 10 ^ 8 * 2 ^ 26 ≤ m) (hhi : m < 2 ^ 53)
    (hdown : 2 * (m * 2 ^ 26 % 10 ^ 8) < 10 ^ 8) :
    back m = if Ignored m (m * 2 ^ 26 % 10 ^ 8) then (m : ℚ) else m - 1 := by
  have hm : (10 ^ 8 * 2 ^ 26 : ℚ) ≤ m := by exact_mod_cast hlo
  have hm' : (m : ℚ) < 2 ^ 53 := by exact_mod_cast hhi
  rw [back_of_down (by omega) (by omega) hdown]
  generalize m * 2 ^ 26 % 10 ^ 8 = rest at hdown ⊢
  have hrest : (2 * rest : ℚ) < 10 ^ 8 := by exact_mod_cast hdown
  have hnonneg : (0 : ℚ) ≤ rest := Nat.cast_nonneg rest
  rw [round_significand (by linarith) (by linarith)]
  have hnear := @nearest_sub ℚ _ _ _ _ m (rest / 2 ^ 26) (by positivity) (by linarith)
  simp only [ignored_iff, Int.cast_natCast] at hnear
  rw [hnear]
  split <;> push_cast <;> rfl

/-- A larger significand, when the quotient is rounded up: the product is the
significand or one more. -/
theorem back_high_up {m : ℕ} (hlo : 10 ^ 8 * 2 ^ 26 ≤ m) (hhi : m < 2 ^ 53)
    (hup : 10 ^ 8 < 2 * (m * 2 ^ 26 % 10 ^ 8)) :
    back m = if Ignored m (10 ^ 8 - m * 2 ^ 26 % 10 ^ 8) then (m : ℚ) else m + 1 := by
  have hm : (10 ^ 8 * 2 ^ 26 : ℚ) ≤ m := by exact_mod_cast hlo
  -- an integer, so the product does not reach the next power of two
  have hm' : (m : ℚ) + 1 ≤ 2 ^ 53 := by exact_mod_cast hhi
  have hmod : m * 2 ^ 26 % 10 ^ 8 < 10 ^ 8 := Nat.mod_lt _ (by norm_num)
  rw [back_of_up (by omega) (by omega) hup]
  have hgap : (10 ^ 8 - (m * 2 ^ 26 % 10 ^ 8 : ℕ) : ℚ) = (10 ^ 8 - m * 2 ^ 26 % 10 ^ 8 : ℕ) := by
    rw [Nat.cast_sub hmod.le]
    norm_cast
  rw [hgap]
  have hgap : 2 * (10 ^ 8 - m * 2 ^ 26 % 10 ^ 8) < 10 ^ 8 := by omega
  generalize 10 ^ 8 - m * 2 ^ 26 % 10 ^ 8 = rest at hgap ⊢
  have hrest : (2 * rest : ℚ) < 10 ^ 8 := by exact_mod_cast hgap
  have hnonneg : (0 : ℚ) ≤ rest := Nat.cast_nonneg rest
  rw [round_significand (by linarith) (by linarith)]
  have hnear := @nearest_add ℚ _ _ _ _ m (rest / 2 ^ 26) (by positivity) (by linarith)
  simp only [ignored_iff, Int.cast_natCast] at hnear
  rw [hnear]
  split <;> push_cast <;> rfl

/-- What is written back, and when. -/
theorem back_cases {m : ℕ} (hlo : 2 ^ 52 ≤ m) (hhi : m < 2 ^ 53) :
    back m = m ∧ (m < 10 ^ 8 * 2 ^ 26 ∨ Ignored m (m * 2 ^ 26 % 10 ^ 8) ∨
        Ignored m (10 ^ 8 - m * 2 ^ 26 % 10 ^ 8)) ∨
      back m = (m - 1 : ℕ) ∧ 10 ^ 8 * 2 ^ 26 ≤ m ∧ 2 * (m * 2 ^ 26 % 10 ^ 8) < 10 ^ 8 ∧
        ¬Ignored m (m * 2 ^ 26 % 10 ^ 8) ∨
      back m = (m + 1 : ℕ) ∧ 10 ^ 8 * 2 ^ 26 ≤ m ∧ 10 ^ 8 < 2 * (m * 2 ^ 26 % 10 ^ 8) ∧
        ¬Ignored m (10 ^ 8 - m * 2 ^ 26 % 10 ^ 8) := by
  rcases Nat.lt_or_ge m (10 ^ 8 * 2 ^ 26) with hlow | hhigh
  · exact .inl ⟨back_low hlo hlow, .inl hlow⟩
  rcases Nat.lt_or_ge (2 * (m * 2 ^ 26 % 10 ^ 8)) (10 ^ 8) with hdown | hup
  · have hback := back_high_down hhigh hhi hdown
    split at hback
    · rename_i hignored
      exact .inl ⟨hback, .inr (.inl hignored)⟩
    · rename_i hlost
      have hsub : ((m - 1 : ℕ) : ℚ) = m - 1 := by
        rw [Nat.cast_sub (by omega), Nat.cast_one]
      exact .inr (.inl ⟨hback.trans hsub.symm, hhigh, hdown, hlost⟩)
  · -- a multiple of `2 ^ 8` is not half of `10 ^ 8`
    have hup : 10 ^ 8 < 2 * (m * 2 ^ 26 % 10 ^ 8) := by omega
    have hback := back_high_up hhigh hhi hup
    split at hback
    · rename_i hignored
      exact .inl ⟨hback, .inr (.inr hignored)⟩
    · rename_i hlost
      exact .inr (.inr ⟨by rw [hback, Nat.cast_succ], hhigh, hup, hlost⟩)

/-! ## A volume -/

/-- The first 53 bits of a volume. -/
def significand (n : ℕ) : ℕ := n * 2 ^ (52 - n.log2)

/-- The remainder of a significand in the division by `10 ^ 8`. -/
def remainder (n : ℕ) : ℕ := significand n * 2 ^ 26 % 10 ^ 8

/-- The volumes that are written back.  The quotient of a small significand has one bit
more than is needed.  Else the remainder of the division has to be small, or so near to
`10 ^ 8` that the product is rounded back; a product that is too large still has the
right integer part when there is room for a fraction. -/
def VolumeKept (n : ℕ) : Prop :=
  significand n < 10 ^ 8 * 2 ^ 26 ∨ Ignored (significand n) (remainder n) ∨
    Ignored (significand n) (10 ^ 8 - remainder n) ∨ n < 2 ^ 52 ∧ 10 ^ 8 < 2 * remainder n

instance : DecidablePred VolumeKept := fun n =>
  inferInstanceAs (Decidable (significand n < 10 ^ 8 * 2 ^ 26 ∨
    Ignored (significand n) (remainder n) ∨ Ignored (significand n) (10 ^ 8 - remainder n) ∨
      n < 2 ^ 52 ∧ 10 ^ 8 < 2 * remainder n))

theorem log2_le_of_lt {n : ℕ} (hn : n < 2 ^ 53) : n.log2 ≤ 52 := by
  rcases Nat.eq_zero_or_pos n with rfl | hpos
  · exact Nat.zero_le _
  · exact Nat.lt_succ_iff.mp ((Nat.log2_lt hpos.ne').mpr hn)

theorem significand_bounds {n : ℕ} (hpos : n ≠ 0) (hn : n < 2 ^ 53) :
    2 ^ 52 ≤ significand n ∧ significand n < 2 ^ 53 := by
  have hlog := log2_le_of_lt hn
  have hlo : 2 ^ n.log2 ≤ n := Nat.log2_self_le hpos
  have hhi : n < 2 ^ (n.log2 + 1) := Nat.lt_log2_self
  constructor
  · calc 2 ^ 52 = 2 ^ n.log2 * 2 ^ (52 - n.log2) := by rw [← Nat.pow_add]; congr 1; omega
      _ ≤ significand n := Nat.mul_le_mul_right _ hlo
  · calc significand n < 2 ^ (n.log2 + 1) * 2 ^ (52 - n.log2) :=
          Nat.mul_lt_mul_of_pos_right hhi (by positivity)
      _ = 2 ^ 53 := by rw [← Nat.pow_add]; congr 1; omega

/-- What is written back has the exponent of the volume. -/
theorem unitsOf_lotsOf {n : ℕ} (hpos : n ≠ 0) (hn : n < 2 ^ 53) :
    unitsOf (lotsOf n) = min ⌊back (significand n) / (2 ^ (52 - n.log2) : ℕ)⌋₊ (2 ^ 64 - 1) := by
  have hm := (significand_bounds hpos hn).1
  have hsig : (n : ℚ) = significand n * 2 ^ (-((52 - n.log2 : ℕ) : ℤ)) := by
    rw [zpow_neg, zpow_natCast, significand, Nat.cast_mul, Nat.cast_pow, Nat.cast_ofNat,
      mul_inv_cancel_right₀ (by positivity)]
  have hm' : (0 : ℚ) < significand n := by
    exact_mod_cast Nat.lt_of_lt_of_le (by norm_num) hm
  have hlots : (0 : ℚ) < significand n / LOT_MULTIPLIER :=
    div_pos hm' (by norm_num [LOT_MULTIPLIER])
  have hquotient : (0 : ℚ) < Rounding.round 53 (significand n / LOT_MULTIPLIER) * LOT_MULTIPLIER :=
    mul_pos (round_pos (by norm_num) hlots) (by norm_num [LOT_MULTIPLIER])
  have hn : Rounding.round 53 (n : ℚ) = n := round_natCast hn
  rw [unitsOf, lotsOf, hn, hsig, mul_div_right_comm, round_mul_zpow hlots, mul_right_comm,
    round_mul_zpow hquotient, ← back, zpow_neg, zpow_natCast, ← div_eq_mul_inv]
  push_cast
  rfl

/-- A volume is kept, or it is one of those that come back smaller or one larger. -/
theorem unitsOf_lotsOf_cases {n : ℕ} (hn : n < 2 ^ 53) :
    VolumeKept n ∧ unitsOf (lotsOf n) = n ∨
      ¬VolumeKept n ∧ (unitsOf (lotsOf n) < n ∨ 2 ^ 52 ≤ n ∧ unitsOf (lotsOf n) = n + 1) := by
  rcases Nat.eq_zero_or_pos n with rfl | hpos
  · have hzero : lotsOf 0 = 0 := by simp [lotsOf]
    rw [hzero]
    exact .inl ⟨by decide, by simp [unitsOf]⟩
  obtain ⟨hlo, hhi⟩ := significand_bounds hpos.ne' hn
  have hunits := unitsOf_lotsOf hpos.ne' hn
  have hscale : 0 < 2 ^ (52 - n.log2) := by positivity
  have hmod : remainder n < 10 ^ 8 := Nat.mod_lt _ (by norm_num)
  rcases back_cases hlo hhi with ⟨hback, hkept⟩ | ⟨hback, hlow, hdown, hlost⟩ |
      ⟨hback, hlow, hup, hlost⟩
  · rw [hback, Nat.floor_div_eq_div, significand, Nat.mul_div_cancel _ hscale] at hunits
    refine .inl ⟨?_, hunits.trans (Nat.min_eq_left (by omega))⟩
    rcases hkept with hlow | hdown | hup
    · exact .inl hlow
    · exact .inr (.inl hdown)
    · exact .inr (.inr (.inl hup))
  · have hfloor : (significand n - 1) / 2 ^ (52 - n.log2) < n := by
      rw [Nat.div_lt_iff_lt_mul hscale]
      have hsig : significand n = n * 2 ^ (52 - n.log2) := rfl
      omega
    rw [hback, Nat.floor_div_eq_div] at hunits
    rw [← remainder] at hdown
    refine .inr ⟨?_, .inl (by omega)⟩
    rintro (h | h | h | ⟨-, h⟩)
    · omega
    · exact hlost h
    · have hle := h.le
      omega
    · omega
  · rw [hback, Nat.floor_div_eq_div] at hunits
    rw [← remainder] at hup
    rcases Nat.lt_or_ge n (2 ^ 52) with hsmall | hlarge
    · -- the volume has a fraction to cut off
      have hlog : n.log2 < 52 := (Nat.log2_lt hpos.ne').mpr hsmall
      have hone : 1 < 2 ^ (52 - n.log2) := Nat.one_lt_two_pow (by omega)
      have hfloor : (significand n + 1) / 2 ^ (52 - n.log2) = n := by
        rw [significand, Nat.add_comm, Nat.add_mul_div_right _ _ hscale, Nat.div_eq_of_lt hone,
          Nat.zero_add]
      rw [hfloor] at hunits
      exact .inl ⟨.inr (.inr (.inr ⟨hsmall, hup⟩)), hunits.trans (Nat.min_eq_left (by omega))⟩
    · have hlog : n.log2 = 52 :=
        le_antisymm (log2_le_of_lt hn) ((Nat.le_log2 hpos.ne').mpr hlarge)
      rw [significand, hlog] at hunits
      refine .inr ⟨?_, .inr ⟨hlarge, by omega⟩⟩
      rintro (h | h | h | ⟨h, -⟩)
      · omega
      · have hle := h.le
        omega
      · exact hlost h
      · omega

theorem unitsOf_lotsOf_iff {n : ℕ} (hn : n < 2 ^ 53) : unitsOf (lotsOf n) = n ↔ VolumeKept n := by
  rcases unitsOf_lotsOf_cases hn with ⟨hkept, hunits⟩ | ⟨hlost, hunits⟩
  · exact iff_of_true hunits hkept
  · exact iff_of_false (by omega) hlost

/-! ## The book and the operations -/

theorem slice_packOp_iff {op : Operation} {n : ℕ} (hn : n < 2 ^ 53) :
    slice (packOp op) 72 8 = LittleEndian.encode 8 n ↔ unitsOf op.volumeLots = n := by
  rw [slice_packOp]
  constructor
  · intro h
    have hunits : unitsOf op.volumeLots ≤ 2 ^ 64 - 1 := Nat.min_le_right _ _
    have hdecode := congrArg LittleEndian.decode h
    rwa [LittleEndian.decode_encode_of_lt (by omega), LittleEndian.decode_encode_of_lt (by omega)]
      at hdecode
  · intro h
    rw [h]

/-- The operations that take the volume of a position. -/
theorem pack_position {answers : Answers} {body : Bytes} (hbook : answers.book = .ok body)
    {ticket : Int} {record : Bytes}
    (hfind : (positionRecords body).find? (i64At · == ticket) = some record) {command : Command}
    (hcommand : command = .closePosition ticket none ∨
      ∃ sl tp, command = .modifyPosition ticket sl tp) :
    ∃ op, pack answers command = .ok (packOp op) ∧
      op.volumeLots = lotsOf (u64At (record.drop 124)) := by
  have hposition : findPosition answers ticket = .ok (parsePosition record) := by
    have hfind' : (parsePositions body).find? (·.ticket == ticket) =
        some (parsePosition record) := by
      rw [parsePositions, List.find?_map]
      exact congrArg (Option.map parsePosition) hfind
    simp only [findPosition, hbook, orOther, Except.mapError, bind, Except.bind, hfind']
    rfl
  rcases hcommand with rfl | ⟨sl, tp, rfl⟩
  · rw [pack, hposition]
    exact ⟨_, rfl, rfl⟩
  · rw [pack, hposition]
    exact ⟨_, rfl, rfl⟩

/-- The operations that take the volume of an order. -/
theorem pack_order {answers : Answers} {body : Bytes} (hbook : answers.book = .ok body)
    {ticket : Int} {record : Bytes}
    (hfind : (orderRecords body).find? (i64At · == ticket) = some record) {command : Command}
    (hcommand : command = .cancelOrder ticket ∨
      ∃ price sl tp, command = .modifyOrder ticket price sl tp) :
    ∃ op, pack answers command = .ok (packOp op) ∧
      op.volumeLots = lotsOf (u32At (record.drop 204)) := by
  have horder : findOrder answers ticket = .ok (parseOrder record) := by
    have hfind' : (parseOrders body).find? (·.ticket == ticket) = some (parseOrder record) := by
      rw [parseOrders, List.find?_map]
      exact congrArg (Option.map parseOrder) hfind
    simp only [findOrder, hbook, orOther, Except.mapError, bind, Except.bind, hfind']
    rfl
  rcases hcommand with rfl | ⟨price, sl, tp, rfl⟩
  · rw [pack, horder]
    exact ⟨_, rfl, rfl⟩
  · rw [pack, horder]
    exact ⟨_, rfl, rfl⟩

/-- Eight bytes of a record, and the first four of them. -/
theorem read_of_slice {record : Bytes} {offset n : ℕ} (hn : n < 2 ^ 53)
    (h : slice record offset 8 = LittleEndian.encode 8 n) :
    u64At (record.drop offset) = n ∧ u32At (record.drop offset) = n % 2 ^ 32 := by
  rw [slice] at h
  have hlength : 8 ≤ (record.drop offset).length := by
    have hlength := congrArg List.length h
    rw [List.length_take, LittleEndian.length_encode] at hlength
    omega
  constructor
  · rw [u64At, if_neg (by omega), h, LittleEndian.decode_encode_of_lt (by omega)]
  · have hfour : (record.drop offset).take 4 = LittleEndian.encode 4 n := by
      rw [← LittleEndian.take_encode (by norm_num : 4 ≤ 8), ← h, List.take_take]
      rfl
    rw [u32At, if_neg (by omega), hfour, LittleEndian.decode_encode]
    rfl

/-- The volume of a position or an order, from its record in the book to the operation
of a command that takes it.  An order has four bytes for it. -/
theorem pack_volume_iff {n : ℕ} (hn : n < 2 ^ 53) {answers : Answers} {body : Bytes}
    (hbook : answers.book = .ok body) (ticket : Int) (record : Bytes) :
    ((positionRecords body).find? (i64At · == ticket) = some record →
      slice record 124 8 = LittleEndian.encode 8 n →
        ∀ command, (command = .closePosition ticket none ∨
          ∃ sl tp, command = .modifyPosition ticket sl tp) →
            ∃ op, pack answers command = .ok op ∧
              (slice op 72 8 = LittleEndian.encode 8 n ↔ VolumeKept n)) ∧
      ((orderRecords body).find? (i64At · == ticket) = some record →
        slice record 204 8 = LittleEndian.encode 8 n →
          ∀ command, (command = .cancelOrder ticket ∨
            ∃ price sl tp, command = .modifyOrder ticket price sl tp) →
              ∃ op, pack answers command = .ok op ∧
                (slice op 72 8 = LittleEndian.encode 8 n ↔ n < 2 ^ 32 ∧ VolumeKept n)) := by
  constructor
  · intro hfind hslice command hcommand
    obtain ⟨op, hpack, hvolume⟩ := pack_position hbook hfind hcommand
    refine ⟨packOp op, hpack, ?_⟩
    rw [slice_packOp_iff hn, hvolume, (read_of_slice hn hslice).1, unitsOf_lotsOf_iff hn]
  · intro hfind hslice command hcommand
    obtain ⟨op, hpack, hvolume⟩ := pack_order hbook hfind hcommand
    refine ⟨packOp op, hpack, ?_⟩
    rw [slice_packOp_iff hn, hvolume, (read_of_slice hn hslice).2]
    rcases Nat.lt_or_ge n (2 ^ 32) with hlt | hge
    · rw [Nat.mod_eq_of_lt hlt, unitsOf_lotsOf_iff hn]
      exact (and_iff_right hlt).symm
    · -- what comes back is not larger than the four bytes
      refine iff_of_false ?_ (by omega)
      have hmod : n % 2 ^ 32 < 2 ^ 32 := Nat.mod_lt _ (by norm_num)
      rcases @unitsOf_lotsOf_cases (n % 2 ^ 32) (by omega) with ⟨-, h⟩ | ⟨-, h | ⟨h, -⟩⟩ <;> omega

/-- The answer for one position and one order of this volume, both with ticket 0. -/
def bookOf (n : ℕ) : Bytes :=
  LittleEndian.encode 4 1 ++ List.replicate 124 0 ++ LittleEndian.encode 8 n ++
    List.replicate 212 0 ++ LittleEndian.encode 4 1 ++ List.replicate 204 0 ++
      LittleEndian.encode 8 n ++ List.replicate 144 0

/-- A connection with this book. -/
def answersOf (n : ℕ) : Answers where
  book := .ok (bookOf n)
  quote _ := none
  digits _ := none
  actionId := 0

/-- One lot. -/
theorem pack_volume_iff_lot :
    (∃ op, pack (answersOf 100000000) (.closePosition 0 none) = .ok op ∧
      slice op 72 8 = LittleEndian.encode 8 100000000) ∧
      ∃ op, pack (answersOf 100000000) (.cancelOrder 0) = .ok op ∧
        slice op 72 8 = LittleEndian.encode 8 100000000 := by
  have hn : 100000000 < 2 ^ 53 := by norm_num
  have hbook : (answersOf 100000000).book = .ok (bookOf 100000000) := rfl
  have hkept : VolumeKept 100000000 := by decide
  constructor
  · obtain ⟨op, hpack, hiff⟩ := (pack_volume_iff hn hbook 0 (slice (bookOf 100000000) 4 344)).1
      (by decide +kernel) (by decide +kernel) _ (.inl rfl)
    exact ⟨op, hpack, hiff.mpr hkept⟩
  · obtain ⟨op, hpack, hiff⟩ := (pack_volume_iff hn hbook 0 (slice (bookOf 100000000) 352 356)).2
      (by decide +kernel) (by decide +kernel) _ (.inl rfl)
    exact ⟨op, hpack, hiff.mpr ⟨by norm_num, hkept⟩⟩

/-- A close of 0.29 lots asks for one unit less. -/
theorem volume_lost :
    ¬∀ n < 2 ^ 53, ∀ (answers : Answers) (body : Bytes) (ticket : Int) (record : Bytes),
      answers.book = .ok body →
        (positionRecords body).find? (i64At · == ticket) = some record →
          slice record 124 8 = LittleEndian.encode 8 n →
            ∃ op, pack answers (.closePosition ticket none) = .ok op ∧
              slice op 72 8 = LittleEndian.encode 8 n := by
  intro hclaim
  have hn : 29000000 < 2 ^ 53 := by norm_num
  have hbook : (answersOf 29000000).book = .ok (bookOf 29000000) := rfl
  have hfind : (positionRecords (bookOf 29000000)).find? (i64At · == 0) =
      some (slice (bookOf 29000000) 4 344) := by decide +kernel
  have hslice : slice (slice (bookOf 29000000) 4 344) 124 8 = LittleEndian.encode 8 29000000 := by
    decide +kernel
  obtain ⟨bytes, hbytes, hkept⟩ := hclaim 29000000 hn _ _ 0 _ hbook hfind hslice
  obtain ⟨op, hpack, hvolume⟩ := pack_position hbook hfind (.inl rfl)
  rw [hpack] at hbytes
  rw [← Except.ok.inj hbytes, slice_packOp_iff hn, hvolume, (read_of_slice hn hslice).1,
    unitsOf_lotsOf_iff hn] at hkept
  exact absurd hkept (by decide)

end Mt5Open.Webterm.Trade
