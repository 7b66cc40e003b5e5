import Mathlib.Data.Nat.Init
import Mathlib.Data.Int.Init
import Mathlib.Tactic.Ring

/-!
# Little-endian integers of any width

Integers are mathematical integers here, and a width is a number of bytes.
`encode n v` is the little-endian image of `v` modulo `256 ^ n`, and `decode`
reads a whole byte list as one unsigned integer.  `encodeInt` and `decodeInt`
are the two's complement pair.

`decode_encode` and `encode_decode` say that the unsigned pair is a bijection
between the byte lists of length `n` and the numbers below `256 ^ n`.
`decodeInt_encodeInt` is the signed round trip on the storage range.
-/

namespace Mt5Open.Lib.LittleEndian

/-- The `n` low bytes of `v`, least significant first. -/
def encode : Nat → Nat → List UInt8
  | 0, _ => []
  | n + 1, v => UInt8.ofNat v :: encode n (v / 256)

/-- A byte list read as one unsigned integer, least significant byte first. -/
def decode : List UInt8 → Nat
  | [] => 0
  | b :: bs => b.toNat + 256 * decode bs

@[simp] theorem length_encode (n v : Nat) : (encode n v).length = n := by
  induction n generalizing v with
  | zero => rfl
  | succ n ih => simp [encode, ih]

/-- The image on fewer bytes. -/
theorem take_encode {k n : Nat} (h : k ≤ n) (v : Nat) : (encode n v).take k = encode k v := by
  induction k generalizing n v with
  | zero => rfl
  | succ k ih =>
    obtain ⟨n, rfl⟩ :=
      Nat.exists_eq_add_one_of_ne_zero (Nat.ne_of_gt (Nat.lt_of_lt_of_le k.succ_pos h))
    rw [encode, encode, List.take_succ_cons, ih (Nat.le_of_succ_le_succ h)]

theorem decode_encode (n v : Nat) : decode (encode n v) = v % 256 ^ n := by
  induction n generalizing v with
  | zero => simp [encode, decode, Nat.mod_one]
  | succ n ih =>
    have hbyte : (UInt8.ofNat v).toNat = v % 256 := by simp
    rw [encode, decode, hbyte, ih, Nat.pow_succ, Nat.mul_comm (256 ^ n) 256, Nat.mod_mul]

theorem decode_encode_of_lt {n v : Nat} (h : v < 256 ^ n) : decode (encode n v) = v := by
  rw [decode_encode, Nat.mod_eq_of_lt h]

theorem encode_decode (bs : List UInt8) : encode bs.length (decode bs) = bs := by
  induction bs with
  | nil => rfl
  | cons b bs ih =>
    have hb : b.toNat < 256 := b.toNat_lt
    have hlow : UInt8.ofNat (b.toNat + 256 * decode bs) = b := by
      apply UInt8.toNat_inj.mp
      simp only [UInt8.toNat_ofNat']
      omega
    have hrest : (b.toNat + 256 * decode bs) / 256 = decode bs := by omega
    rw [List.length_cons, decode, encode, hlow, hrest, ih]

/-- The bytes of a number are those of its remainder. -/
theorem encode_mod (n v : Nat) : encode n (v % 256 ^ n) = encode n v := by
  have hback := encode_decode (encode n v)
  rwa [decode_encode, length_encode] at hback

theorem decode_lt (bs : List UInt8) : decode bs < 256 ^ bs.length := by
  rw [← encode_decode bs, decode_encode, length_encode]
  exact Nat.mod_lt _ (Nat.pow_pos (by decide))

/-- The two's complement image of `v` on `n` bytes. -/
def encodeInt (n : Nat) (v : Int) : List UInt8 :=
  encode n (v % (256 ^ n : Nat)).toNat

/-- A byte list read in two's complement. -/
def decodeInt (bs : List UInt8) : Int :=
  (decode bs : Int).bmod (256 ^ bs.length)

@[simp] theorem length_encodeInt (n : Nat) (v : Int) : (encodeInt n v).length = n :=
  length_encode n _

/-- An integer of the signed storage range survives the round trip. -/
theorem decodeInt_encodeInt {n : Nat} {v : Int} (hlo : -(256 ^ n : Nat) ≤ 2 * v)
    (hhi : 2 * v < (256 ^ n : Nat)) : decodeInt (encodeInt n v) = v := by
  have hpos : (0 : Int) < (256 ^ n : Nat) := by
    exact_mod_cast Nat.pow_pos (by decide)
  have hnonneg : 0 ≤ v % (256 ^ n : Nat) := Int.emod_nonneg _ (by omega)
  have hlt : v % (256 ^ n : Nat) < (256 ^ n : Nat) := Int.emod_lt_of_pos _ hpos
  rw [decodeInt, encodeInt, length_encode, decode_encode_of_lt (by omega),
    Int.toNat_of_nonneg hnonneg, Int.emod_bmod]
  exact Int.bmod_eq_of_le_mul_two (by omega) (by omega)

/-- A length below the sign bit reads back as itself. -/
theorem decodeInt_encode_of_lt {n v : Nat} (h : 2 * v < 256 ^ n) :
    decodeInt (encode n v) = v := by
  rw [decodeInt, length_encode, decode_encode_of_lt (by omega)]
  exact Int.bmod_eq_of_le_mul_two (by omega) (by exact_mod_cast (by omega : v * 2 < 256 ^ n))

/-- A signed number that is not negative is the unsigned one. -/
theorem decode_of_decodeInt {bs : List UInt8} {n : Nat} (h : decodeInt bs = n) : decode bs = n := by
  have hlt := decode_lt bs
  have hmod : (decode bs : Int) % (256 ^ bs.length : Nat) = decode bs :=
    Int.emod_eq_of_lt (by omega) (by exact_mod_cast hlt)
  rw [decodeInt, Int.bmod, hmod] at h
  split at h <;> omega

/-- A signed number is below half of the range of its bytes. -/
theorem decodeInt_lt (bs : List UInt8) : 2 * decodeInt bs < (256 ^ bs.length : Nat) := by
  have hpos : 0 < 256 ^ bs.length := Nat.pow_pos (by decide)
  have hlt := Int.bmod_lt (x := (decode bs : Int)) hpos
  show 2 * (decode bs : Int).bmod (256 ^ bs.length) < _
  omega

/-- A signed number is not below minus half of the range of its bytes. -/
theorem le_decodeInt (bs : List UInt8) : -(256 ^ bs.length : Nat) ≤ 2 * decodeInt bs := by
  have hpos : 0 < 256 ^ bs.length := Nat.pow_pos (by decide)
  have hle := Int.le_bmod (x := (decode bs : Int)) hpos
  show _ ≤ 2 * (decode bs : Int).bmod (256 ^ bs.length)
  omega

/-- Bytes come back from the signed number that they are read as. -/
theorem encodeInt_decodeInt (bs : List UInt8) : encodeInt bs.length (decodeInt bs) = bs := by
  have hlt := decode_lt bs
  have hmod : (decode bs : Int) % (256 ^ bs.length : Nat) = decode bs :=
    Int.emod_eq_of_lt (by omega) (by exact_mod_cast hlt)
  rw [encodeInt, decodeInt, Int.bmod_emod, hmod, Int.toNat_natCast, encode_decode]

end Mt5Open.Lib.LittleEndian
