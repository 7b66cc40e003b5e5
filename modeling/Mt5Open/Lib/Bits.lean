import Mathlib.Data.List.GetD
import Mathlib.Data.Nat.Bitwise

/-!
# Bits of numbers and of bytes

The bits of a number are listed from the lowest, and those of a byte string from
the lowest bit of its first byte.  `toBytes` pads with zero bits to a whole byte.

`getD_ofBytes` is the bit at a position, and `ofBytes_injective` compares byte
strings bit by bit.
-/

namespace Mt5Open.Lib.Bits

/-- The `count` low bits of a number. -/
def field (count v : Nat) : List Bool := (List.range count).map v.testBit

/-- The number with these bits. -/
def value : List Bool → Nat
  | [] => 0
  | b :: bits => b.toNat + 2 * value bits

/-- The bits of a byte string. -/
def ofBytes (bytes : List UInt8) : List Bool := bytes.flatMap fun byte => field 8 byte.toNat

/-- The bytes of a string of bits, with zeros behind it. -/
def toBytes (bits : List Bool) : List UInt8 :=
  (List.range ((bits.length + 7) / 8)).map fun j =>
    UInt8.ofNat (value ((bits.drop (8 * j)).take 8))

/-! ## Numbers -/

@[simp] theorem length_field (count v : Nat) : (field count v).length = count := by simp [field]

theorem getD_field (count v i : Nat) :
    (field count v).getD i false = (decide (i < count) && v.testBit i) := by
  unfold field
  by_cases h : i < count <;> simp [List.getD_eq_getElem?_getD, h]

theorem value_lt (bits : List Bool) : value bits < 2 ^ bits.length := by
  induction bits with
  | nil => exact Nat.one_pos
  | cons b bits ih =>
    have hb : b.toNat ≤ 1 := Bool.toNat_le b
    rw [value, List.length_cons, Nat.pow_succ]
    omega

theorem value_replicate_false (n : Nat) : value (List.replicate n false) = 0 := by
  induction n with
  | zero => rfl
  | succ n ih => rw [List.replicate_succ, value, ih]; rfl

theorem testBit_value (bits : List Bool) (i : Nat) :
    (value bits).testBit i = bits.getD i false := by
  induction bits generalizing i with
  | nil => simp [value]
  | cons b bits ih =>
    have hdiv : (b.toNat + 2 * value bits) / 2 = value bits := by
      have hb : b.toNat ≤ 1 := Bool.toNat_le b
      omega
    cases i with
    | zero =>
      rw [value, Nat.testBit_zero]
      cases b <;> simp
    | succ i => rw [value, ← Nat.testBit_div_two, hdiv, ih, List.getD_cons_succ]

theorem value_field {count v : Nat} (h : v < 2 ^ count) : value (field count v) = v := by
  apply Nat.eq_of_testBit_eq
  intro i
  rw [testBit_value, getD_field]
  by_cases hi : i < count
  · simp [hi]
  · have hlarge : 2 ^ count ≤ 2 ^ i := Nat.pow_le_pow_right (by decide) (by omega)
    rw [Nat.testBit_lt_two_pow (by omega), Bool.and_false]

/-! ## Byte strings -/

theorem ofBytes_append (a b : List UInt8) : ofBytes (a ++ b) = ofBytes a ++ ofBytes b :=
  List.flatMap_append

theorem ofBytes_flatten (chunks : List (List UInt8)) :
    ofBytes chunks.flatten = chunks.flatMap ofBytes := by
  induction chunks with
  | nil => rfl
  | cons chunk chunks ih => rw [List.flatten_cons, ofBytes_append, ih, List.flatMap_cons]

@[simp] theorem length_ofBytes (bytes : List UInt8) :
    (ofBytes bytes).length = 8 * bytes.length := by
  induction bytes with
  | nil => rfl
  | cons byte bytes ih =>
    show (field 8 byte.toNat ++ ofBytes bytes).length = _
    rw [List.length_append, ih, length_field, List.length_cons]
    omega

/-- The bit at a position. -/
theorem getD_ofBytes (bytes : List UInt8) (p : Nat) :
    (ofBytes bytes).getD p false = (bytes.getD (p / 8) 0).toNat.testBit (p % 8) := by
  induction bytes generalizing p with
  | nil => simp [ofBytes]
  | cons byte bytes ih =>
    show (field 8 byte.toNat ++ ofBytes bytes).getD p false = _
    by_cases h : p < 8
    · rw [List.getD_append _ _ _ _ (by simpa using h), getD_field, Nat.div_eq_of_lt h,
        Nat.mod_eq_of_lt h]
      simp [h]
    · obtain ⟨q, rfl⟩ := Nat.exists_eq_add_of_le (Nat.le_of_not_lt h)
      rw [List.getD_append_right _ _ _ _ (by simp), length_field, Nat.add_sub_cancel_left, ih,
        Nat.add_div_left _ (by decide), List.getD_cons_succ, Nat.add_mod_left]

/-- Byte strings with the same bits are the same. -/
theorem ofBytes_injective {a b : List UInt8} (hlength : a.length = b.length)
    (h : ∀ p, (ofBytes a).getD p false = (ofBytes b).getD p false) : a = b := by
  apply List.ext_getElem hlength
  intro i ha hb
  apply UInt8.toNat_inj.mp
  apply Nat.eq_of_testBit_eq
  intro j
  by_cases hj : j < 8
  · have hbit := h (8 * i + j)
    rw [getD_ofBytes, getD_ofBytes, Nat.mul_add_div (by decide), Nat.div_eq_of_lt hj,
      Nat.mul_add_mod, Nat.mod_eq_of_lt hj, Nat.add_zero, List.getD_eq_getElem _ _ ha,
      List.getD_eq_getElem _ _ hb] at hbit
    exact hbit
  · have hlarge : 2 ^ 8 ≤ 2 ^ j := Nat.pow_le_pow_right (by decide) (by omega)
    have hfirst := a[i].toNat_lt
    have hsecond := b[i].toNat_lt
    rw [Nat.testBit_lt_two_pow (by omega), Nat.testBit_lt_two_pow (by omega)]

@[simp] theorem length_toBytes (bits : List Bool) :
    (toBytes bits).length = (bits.length + 7) / 8 := by simp [toBytes]

/-- The bytes hold the bits, and zeros behind them. -/
theorem getD_ofBytes_toBytes (bits : List Bool) (p : Nat) :
    (ofBytes (toBytes bits)).getD p false = bits.getD p false := by
  have hmod : p % 8 < 8 := Nat.mod_lt p (by decide)
  have hdivision := Nat.div_add_mod p 8
  rw [getD_ofBytes]
  by_cases h : p / 8 < (bits.length + 7) / 8
  · have hlength : ((bits.drop (8 * (p / 8))).take 8).length ≤ 8 :=
      List.length_take_le _ _
    have hlt := value_lt ((bits.drop (8 * (p / 8))).take 8)
    have hpow : 2 ^ ((bits.drop (8 * (p / 8))).take 8).length ≤ 2 ^ 8 :=
      Nat.pow_le_pow_right (by decide) hlength
    have hbyte : (toBytes bits).getD (p / 8) 0 =
        UInt8.ofNat (value ((bits.drop (8 * (p / 8))).take 8)) := by
      simp [toBytes, List.getD_eq_getElem?_getD, h]
    rw [hbyte, UInt8.toNat_ofNat_of_lt' (Nat.lt_of_lt_of_le hlt hpow), testBit_value]
    simp only [List.getD_eq_getElem?_getD, List.getElem?_take, List.getElem?_drop, if_pos hmod,
      hdivision]
  · have hshort : bits.length ≤ p := by omega
    rw [List.getD_eq_default _ _ (by simpa using h), List.getD_eq_default _ _ hshort]
    simp

theorem ofBytes_toBytes (bits : List Bool) :
    ofBytes (toBytes bits) =
      bits ++ List.replicate (8 * ((bits.length + 7) / 8) - bits.length) false := by
  apply List.ext_getElem
  · simp
    omega
  · intro p hp hq
    have hbit := getD_ofBytes_toBytes bits p
    rw [List.getD_eq_getElem _ _ hp] at hbit
    rw [hbit, List.getElem_append]
    split
    · rename_i h
      rw [List.getD_eq_getElem _ _ h]
    · rename_i h
      rw [List.getD_eq_default _ _ (by omega), List.getElem_replicate]

/-- Whole bytes are not padded. -/
theorem ofBytes_toBytes_of_dvd {bits : List Bool} (h : 8 ∣ bits.length) :
    ofBytes (toBytes bits) = bits := by
  obtain ⟨n, hn⟩ := h
  have hpadding : 8 * ((bits.length + 7) / 8) - bits.length = 0 := by omega
  rw [ofBytes_toBytes, hpadding, List.replicate_zero, List.append_nil]

end Mt5Open.Lib.Bits
