import Mathlib.Data.List.Basic
import Mt5Open.Lib.Bits
import Mt5Open.Lib.Loop
import Mt5Open.Lib.Tape
import Mt5Open.Native.Reader

/-!
# Bit-packed streams

Bits are laid out from the lowest bit of each byte.  A packed integer begins with
digits of `k` bits that add up to the number of two-bit groups of its value; a digit
with all bits set goes on to the next one.  The boundary of a record is the next
byte, and a whole byte for a reader that stands at a byte already.

`Reads` and `Writes` say which bits an operation of the reader and of the writer
goes over, behind which bits.  `stream_round_trip` is the codec: whatever the
operations of a writer are, the reader answers what was written, in step with it.
-/

namespace Mt5Open.Native

open Lib

/-! ## The bit reader -/

/-- A reader of the bits below its limit. -/
structure BitReader where
  data : Bytes
  limit : Nat
  position : Nat
  k : Nat
  limit_le : limit ≤ data.length * 8
  deriving DecidableEq, Repr

/-- A decoder that moves the position of a bit reader. -/
abbrev BitDecoder := Decoder ProtocolError BitReader

namespace BitReader

/-- `BitReader::new`. -/
def new (data : Bytes) : BitReader where
  data := data
  limit := data.length * 8
  position := 0
  k := 2
  limit_le := Nat.le_refl _

/-- `BitReader::with_limit`. -/
def withLimit (data : Bytes) (limit k : Nat) : Result BitReader :=
  if h : limit ≤ data.length * 8 ∧ 1 ≤ k ∧ k ≤ 8 then
    .ok { data := data, limit := limit, position := 0, k := k, limit_le := h.1 }
  else reject "invalid packed stream bounds"

/-- The bits that are left. -/
def remaining (r : BitReader) : Nat := r.limit - r.position

def bit (r : BitReader) (p : Nat) : Nat := (r.data.getD (p / 8) 0).toNat >>> (p % 8) % 2

/-- `BitReader::bits`. -/
def bits (count : Nat) : BitDecoder Nat := fun r =>
  if 64 < count ∨ r.limit < r.position + count then reject "truncated bit field"
  else
    let value := (List.range count).foldl
      (fun value i => value ||| r.bit (r.position + i) <<< i) 0
    .ok (value, { r with position := r.position + count })

theorem bits_remaining {count v : Nat} {r t : BitReader} (h : bits count r = .ok (v, t)) :
    t.remaining + count = r.remaining := by
  unfold bits at h
  split at h
  · cases h
  · cases Except.ok.inj h
    simp only [remaining] at *
    omega

/-- The bits of a field are in the data. -/
theorem bits_in_range {count v : Nat} {r t : BitReader} (h : bits count r = .ok (v, t)) {i : Nat}
    (hi : i < count) : (r.position + i) / 8 < r.data.length := by
  unfold bits at h
  split at h
  · cases h
  · rename_i hfield
    have hlimit := r.limit_le
    omega

theorem shrinks_bits (count : Nat) : Decoder.Shrinks remaining (bits count) := by
  intro r v t h
  have := bits_remaining h
  omega

/-- The loop of `BitReader::prefix`, over the sum of the digits. -/
def unitLoop (width k : Nat) (hk : 1 ≤ k) : Loop (Nat × BitReader) (Result (Nat × BitReader)) where
  body
    | (units, r) =>
      match bits k r with
      | .error e => .inr (.error e)
      | .ok (digit, rest) =>
        if width < 2 * (units + digit) then .inr (reject "packed integer exceeds storage width")
        else if digit ≠ 2 ^ k - 1 then .inr (.ok (2 * (units + digit), rest))
        else .inl (units + digit, rest)
  measure s := s.2.remaining
  decreases := by
    rintro ⟨units, r⟩ t h
    simp only at h
    split at h
    · cases h
    · rename_i digit rest hbits
      have hremaining := bits_remaining hbits
      split at h
      · cases h
      · split at h
        · cases h
        · cases Sum.inl.inj h
          show rest.remaining < r.remaining
          omega

/-- `BitReader::prefix`, the number of bits of a packed integer. -/
def packedLength (width : Nat) : BitDecoder Nat := fun r =>
  if h : 1 ≤ r.k ∧ r.k ≤ 8 ∧ width ∈ [8, 16, 32, 64] then (unitLoop width r.k h.1).run (0, r)
  else reject "unsupported packed width"

/-- `BitReader::signed_magnitude`. -/
def signedMagnitude (width : Nat) : BitDecoder Int := do
  let length ← packedLength width
  let negative ← bits 1
  let value ← bits length
  return if negative ≠ 0 then -(value : Int) else value

/-- `BitReader::packed`. -/
def packed (width : Nat) (signed : Bool) : BitDecoder Int := do
  let length ← packedLength width
  let value ← bits length
  return if signed ∧ value.testBit (width - 1) then (value : Int) - 2 ^ width else value

/-- `packed` for a value that is not signed. -/
def packedNat (width : Nat) : BitDecoder Nat := do
  let v ← packed width false
  return v.toNat

/-- `BitReader::strict_boundary`: the padding bits and their value. -/
def strictBoundary : BitDecoder (Nat × Nat) := fun r =>
  let count := 8 * (r.position / 8 + 1) - r.position
  match bits count r with
  | .error e => .error e
  | .ok (padding, rest) => .ok ((count, padding), rest)

/-- The digits of a packed integer take bits. -/
theorem unitLoop_remaining (width k : Nat) (hk : 1 ≤ k) (s : Nat × BitReader) {length : Nat}
    {t : BitReader} (h : (unitLoop width k hk).run s = .ok (length, t)) :
    t.remaining < s.2.remaining := by
  revert h
  refine Loop.run_rule (unitLoop width k hk)
    (P := fun s r => r = .ok (length, t) → t.remaining < s.2.remaining) ?_ ?_ s
  · rintro ⟨units, r⟩ a hbody rfl
    simp only [unitLoop] at hbody
    split at hbody
    · cases Sum.inr.inj hbody
    · rename_i digit rest hbits
      have hremaining := bits_remaining hbits
      split at hbody
      · cases Sum.inr.inj hbody
      · split at hbody
        · cases Sum.inr.inj hbody
          show t.remaining < r.remaining
          omega
        · cases hbody
  · intro s u a hbody hrest ha
    exact Nat.lt_trans (hrest ha) ((unitLoop width k hk).decreases hbody)

theorem packedLength_remaining {width length : Nat} {r t : BitReader}
    (h : packedLength width r = .ok (length, t)) : t.remaining < r.remaining := by
  unfold packedLength at h
  split at h
  · exact unitLoop_remaining width r.k _ (0, r) h
  · cases h

theorem shrinks_packedLength (width : Nat) : Decoder.Shrinks remaining (packedLength width) :=
  fun _ _ _ h => Nat.le_of_lt (packedLength_remaining h)

theorem packed_remaining {width : Nat} {signed : Bool} {v : Int} {r t : BitReader}
    (h : packed width signed r = .ok (v, t)) : t.remaining < r.remaining := by
  obtain ⟨length, middle, hlength, hrest⟩ := Decoder.Shrinks.le_of_bind h fun length =>
    (shrinks_bits length).bind fun _ => .pure _
  exact Nat.lt_of_le_of_lt hrest (packedLength_remaining hlength)

theorem shrinks_packed (width : Nat) (signed : Bool) :
    Decoder.Shrinks remaining (packed width signed) :=
  fun _ _ _ h => Nat.le_of_lt (packed_remaining h)

theorem shrinks_packedNat (width : Nat) : Decoder.Shrinks remaining (packedNat width) :=
  (shrinks_packed width false).bind fun _ => .pure _

theorem shrinks_signedMagnitude (width : Nat) :
    Decoder.Shrinks remaining (signedMagnitude width) :=
  (shrinks_packedLength width).bind fun length => (shrinks_bits 1).bind fun _ =>
    (shrinks_bits length).bind fun _ => .pure _

/-- The boundary takes at least one bit. -/
theorem strictBoundary_remaining {padding : Nat × Nat} {r t : BitReader}
    (h : strictBoundary r = .ok (padding, t)) : t.remaining < r.remaining := by
  simp only [strictBoundary] at h
  split at h
  · cases h
  · rename_i value rest hbits
    cases Except.ok.inj h
    have := bits_remaining hbits
    omega

end BitReader

/-! ## The bit writer -/

/-- `bitlen`. -/
def bitlen (v : Nat) : Nat := if v = 0 then 0 else v.log2 + 1

theorem bitlen_le_iff {v n : Nat} : bitlen v ≤ n ↔ v < 2 ^ n := by
  unfold bitlen
  split
  · rename_i h
    simp [h]
  · rename_i h
    rw [Nat.add_one_le_iff, Nat.log2_lt h]

/-- The groups of two bits that a number takes. -/
def groups (v : Nat) : Nat := (bitlen v + 1) / 2

/-- A writer.  Digits of no bits would never come to an end, so `k` is positive. -/
structure BitWriter where
  data : Bytes
  position : Nat
  k : Nat
  one_le_k : 1 ≤ k
  deriving DecidableEq, Repr

/-- An operation of a bit writer. -/
abbrev BitEncoder := Decoder ProtocolError BitWriter

namespace BitWriter

/-- `BitWriter { k, ..BitWriter::new() }`. -/
def withDigits (k : Nat) (h : 1 ≤ k) : BitWriter where
  data := []
  position := 0
  k := k
  one_le_k := h

/-- `BitWriter::new`. -/
def new : BitWriter := withDigits 2 (by decide)

/-- Set the bit at a position, for a bit of 1. -/
def orBit (data : Bytes) (p b : Nat) : Bytes :=
  data.modify (p / 8) fun byte => UInt8.ofNat (byte.toNat ||| b <<< (p % 8))

/-- The bytes that a writer has, with zero bytes up to this many bits. -/
def padded (data : Bytes) (bits : Nat) : Bytes :=
  data ++ List.replicate ((bits + 7) / 8 - data.length) 0

/-- `BitWriter::bits`. -/
def bits (value count : Nat) : BitEncoder Unit := fun w =>
  if count < bitlen value then reject "value does not fit bit field"
  else
    let data := (List.range count).foldl
      (fun data i => orBit data (w.position + i) (value >>> i % 2))
      (padded w.data (w.position + count))
    .ok ((), { w with data, position := w.position + count })

/-- The digits of a packed integer, of `k` bits each. -/
def unitLoop (k : Nat) (hk : 1 ≤ k) : Loop (Nat × BitWriter) (Result (Unit × BitWriter)) where
  body
    | (units, w) =>
      if 2 ^ k - 1 ≤ units then
        match bits (2 ^ k - 1) k w with
        | .error e => .inr (.error e)
        | .ok (_, w) => .inl (units - (2 ^ k - 1), w)
      else .inr (bits units k w)
  measure s := s.1
  decreases := by
    rintro ⟨units, w⟩ t h
    have hpow : 2 ^ 1 ≤ 2 ^ k := Nat.pow_le_pow_right (by decide) hk
    simp only at h
    split at h
    · split at h
      · cases h
      · cases Sum.inl.inj h
        show units - (2 ^ k - 1) < units
        omega
    · cases h

/-- The number of two-bit groups of a value, digit by digit. -/
def units (n : Nat) : BitEncoder Unit := fun w => (unitLoop w.k w.one_le_k).run (n, w)

/-- `BitWriter::packed`. -/
def packed (value : Int) (width : Nat) : BitEncoder Unit := do
  if ¬(-2 ^ (width - 1) ≤ value ∧ value < 2 ^ width) then
    Decoder.raise ⟨"integer out of range"⟩
  else
    let masked := (value % 2 ^ width).toNat
    units (groups masked)
    bits masked (2 * groups masked)

/-- `BitWriter::signed_magnitude`. -/
def signedMagnitude (value : Int) (width : Nat) : BitEncoder Unit := do
  let w ← get
  if width ∉ [8, 16, 32, 64] ∨ 2 ^ width ≤ value.natAbs ∨ ¬(1 ≤ w.k ∧ w.k ≤ 8) then
    Decoder.raise ⟨"signed magnitude outside storage width"⟩
  else
    let magnitude := value.natAbs
    units (groups magnitude)
    bits (decide (value < 0)).toNat 1
    bits magnitude (2 * groups magnitude)

/-- `BitWriter::strict_boundary`. -/
def strictBoundary : BitEncoder Unit := do
  let w ← get
  bits 0 (8 * (w.position / 8 + 1) - w.position)

end BitWriter

/-! ## The bits of the operations -/

open Lib.Bits Lib.Tape

/-- A reader that has read `past` and has `rest` before its limit. -/
def BitReader.Stands (k : Nat) (r : BitReader) (past rest : List Bool) : Prop :=
  r.k = k ∧ r.position = past.length ∧ (ofBytes r.data).take r.limit = past ++ rest

/-- A writer that has written `past`. -/
def BitWriter.Stands (k : Nat) (w : BitWriter) (past _rest : List Bool) : Prop :=
  w.k = k ∧ w.position = past.length ∧ w.data = toBytes past

/-- Digits of `k` bits that add up to a number. -/
def digits (k units : Nat) : List Bool :=
  (List.replicate (units / (2 ^ k - 1)) (field k (2 ^ k - 1))).flatten ++
    field k (units % (2 ^ k - 1))

/-- The bits of a packed integer. -/
def packedBits (k width : Nat) (v : Int) : List Bool :=
  digits k (groups (v % 2 ^ width).toNat) ++
    field (2 * groups (v % 2 ^ width).toNat) (v % 2 ^ width).toNat

/-- The bits of a signed magnitude. -/
def magnitudeBits (k : Nat) (v : Int) : List Bool :=
  digits k (groups v.natAbs) ++
    (field 1 (decide (v < 0)).toNat ++ field (2 * groups v.natAbs) v.natAbs)

/-- The padding behind some bits. -/
def boundaryBits (past : List Bool) : List Bool :=
  field (8 * (past.length / 8 + 1) - past.length) 0

/-! ## Single fields -/

theorem lowBit_eq (v i : Nat) : v >>> i % 2 = (v.testBit i).toNat := by
  rw [Nat.toNat_testBit, Nat.shiftRight_eq_div_pow]

namespace BitReader

/-- Bits put together from the lowest. -/
theorem testBit_foldl (b : Nat → Bool) (count j : Nat) :
    ((List.range count).foldl (fun value i => value ||| (b i).toNat <<< i) 0).testBit j =
      (decide (j < count) && b j) := by
  induction count with
  | zero => simp
  | succ count ih =>
    rw [List.range_succ, List.foldl_append, List.foldl_cons, List.foldl_nil, Nat.testBit_or, ih,
      Nat.testBit_shiftLeft]
    rcases Nat.lt_trichotomy j count with h | rfl | h
    · simp [h, Nat.not_le.mpr h, Nat.lt_succ_of_lt h]
    · cases hb : b j <;> simp
    · have hone : (b count).toNat < 2 ^ (j - count) := by
        have := Bool.toNat_le (b count)
        have : 2 ^ 1 ≤ 2 ^ (j - count) := Nat.pow_le_pow_right (by decide) (by omega)
        omega
      rw [Nat.testBit_lt_two_pow hone]
      simp [Nat.not_lt.mpr (Nat.le_of_lt h), Nat.not_lt.mpr h]

theorem Stands.limit_eq {k : Nat} {r : BitReader} {past rest : List Bool}
    (h : r.Stands k past rest) : r.limit = past.length + rest.length := by
  have hlength := congrArg List.length h.2.2
  rw [List.length_take, length_ofBytes, List.length_append] at hlength
  have := r.limit_le
  omega

theorem stands_new (data : Bytes) : (new data).Stands 2 [] (ofBytes data) := by
  refine ⟨rfl, rfl, List.take_of_length_le ?_⟩
  rw [length_ofBytes, Nat.mul_comm]
  exact Nat.le_refl _

/-- The reader goes over any bits, up to 64 at a time. -/
theorem spells_bits {k count : Nat} {word : List Bool} (hcount : count ≤ 64)
    (hword : word.length = count) (past : List Bool) :
    Spells (Stands k) (bits count) past word (value word) := by
  subst hword
  rintro r rest hr
  have hlimit := hr.limit_eq
  rw [List.length_append] at hlimit
  obtain ⟨hk, hposition, htape⟩ := hr
  have hbit : ∀ i < word.length, r.bit (r.position + i) = (word.getD i false).toNat := by
    intro i hi
    rw [bit, lowBit_eq, ← getD_ofBytes, hposition]
    have hat := congrArg (fun bits => bits.getD (past.length + i) false) htape
    simp only [List.getD_eq_getElem?_getD, List.getElem?_take] at hat ⊢
    rw [if_pos (by omega)] at hat
    rw [hat, List.getElem?_append_right (by omega), Nat.add_sub_cancel_left,
      List.getElem?_append_left hi]
  have hvalue : (List.range word.length).foldl
      (fun value i => value ||| r.bit (r.position + i) <<< i) 0 = value word := by
    have hsame : (List.range word.length).foldl
        (fun value i => value ||| r.bit (r.position + i) <<< i) 0 =
          (List.range word.length).foldl
            (fun value i => value ||| (word.getD i false).toNat <<< i) 0 := by
      refine List.foldl_ext _ _ _ fun value i hi => ?_
      rw [hbit i (List.mem_range.mp hi)]
    rw [hsame]
    apply Nat.eq_of_testBit_eq
    intro j
    rw [testBit_foldl, testBit_value]
    by_cases hj : j < word.length
    · simp [hj]
    · rw [List.getD_eq_default _ _ (Nat.le_of_not_lt hj)]
      simp
  refine ⟨{ r with position := r.position + word.length }, ?_, hk, ?_, ?_⟩
  · unfold bits
    rw [if_neg (by omega), hvalue]
  · rw [List.length_append, ← hposition]
  · rw [htape, List.append_assoc]

/-- The reader goes over all that is left, when it is short enough. -/
theorem Stands.bits_rest {k : Nat} {r : BitReader} {past rest : List Bool}
    (h : r.Stands k past rest) (hrest : rest.length ≤ 64) :
    ∃ t, bits (r.limit - r.position) r = .ok (value rest, t) := by
  have hcount : r.limit - r.position = rest.length := by
    have := h.limit_eq
    have := h.2.1
    omega
  obtain ⟨t, hbits, -⟩ := spells_bits hrest rfl past r [] (by rwa [List.append_nil])
  exact ⟨t, hcount ▸ hbits⟩

theorem spells_field {k count v : Nat} (hcount : count ≤ 64) (hv : v < 2 ^ count)
    (past : List Bool) : Spells (Stands k) (bits count) past (field count v) v := by
  have hbits : Spells (Stands k) (bits count) past (field count v) (value (field count v)) :=
    spells_bits hcount (length_field count v) past
  rwa [value_field hv] at hbits

end BitReader

namespace BitWriter

theorem length_orBit (data : Bytes) (p b : Nat) : (orBit data p b).length = data.length := by
  simp [orBit]

theorem getD_orBit {data : Bytes} {p : Nat} (hp : p / 8 < data.length) (b : Bool) (q : Nat) :
    (ofBytes (orBit data p b.toNat)).getD q false =
      ((ofBytes data).getD q false || (decide (q = p) && b)) := by
  have hq : q % 8 < 8 := Nat.mod_lt q (by decide)
  rw [getD_ofBytes, getD_ofBytes, orBit]
  simp only [List.getD_eq_getElem?_getD, List.getElem?_modify]
  by_cases h : p / 8 = q / 8
  · obtain ⟨byte, hget⟩ : ∃ byte, data[q / 8]? = some byte :=
      ⟨_, List.getElem?_eq_getElem (h ▸ hp)⟩
    rw [hget]
    simp only [h, if_true, Option.map_eq_map, Option.map_some, Option.getD_some,
      UInt8.toNat_ofNat', Nat.testBit_mod_two_pow, Nat.testBit_or, Nat.testBit_shiftLeft, hq,
      decide_true, Bool.true_and]
    congr 1
    cases b with
    | false => simp
    | true =>
      have hdivision := Nat.div_add_mod p 8
      have hother := Nat.div_add_mod q 8
      rw [Bool.eq_iff_iff]
      simp only [Bool.toNat_true, Bool.and_eq_true, decide_eq_true_eq,
        Nat.testBit_one_eq_true_iff_self_eq_zero, and_true]
      omega
  · have hne : q ≠ p := by
      rintro rfl
      exact h rfl
    simp [h, hne]

/-- The loop of `bits` sets the bits of the value behind those of the bytes. -/
theorem foldl_orBit (value position count : Nat) (data : Bytes)
    (hroom : position + count ≤ 8 * data.length) :
    ((List.range count).foldl (fun data i => orBit data (position + i) (value >>> i % 2))
        data).length = data.length ∧
      ∀ q, (ofBytes ((List.range count).foldl
          (fun data i => orBit data (position + i) (value >>> i % 2)) data)).getD q false =
        ((ofBytes data).getD q false ||
          (decide (position ≤ q ∧ q < position + count) && value.testBit (q - position))) := by
  induction count with
  | zero =>
    refine ⟨rfl, fun q => ?_⟩
    simp
  | succ count ih =>
    obtain ⟨hlength, hbits⟩ := ih (by omega)
    rw [List.range_succ, List.foldl_append, List.foldl_cons, List.foldl_nil, lowBit_eq]
    refine ⟨(length_orBit _ _ _).trans hlength, fun q => ?_⟩
    rw [getD_orBit (by rw [hlength]; omega), hbits, Bool.or_assoc]
    congr 1
    by_cases hlast : q = position + count
    · subst hlast
      simp
    · have hsame : (position ≤ q ∧ q < position + (count + 1)) ↔
          (position ≤ q ∧ q < position + count) := by omega
      simp only [hsame, hlast, decide_false, Bool.false_and, Bool.or_false]

theorem getD_padded (data : Bytes) (bits q : Nat) :
    (ofBytes (padded data bits)).getD q false = (ofBytes data).getD q false := by
  rw [getD_ofBytes, getD_ofBytes, padded]
  by_cases h : q / 8 < data.length
  · rw [List.getD_append _ _ _ _ h]
  · rw [List.getD_append_right _ _ _ _ (Nat.le_of_not_lt h), List.getD_eq_getElem?_getD,
      List.getElem?_getD_replicate_default_eq, List.getD_eq_default _ _ (Nat.le_of_not_lt h)]

/-- The writer appends the bits of any value that fits. -/
theorem spells_bits {k value count : Nat} (hvalue : value < 2 ^ count) (past : List Bool) :
    Spells (Stands k) (bits value count) past (field count value) () := by
  rintro w rest ⟨hk, hposition, hdata⟩
  let data := (List.range count).foldl
    (fun data i => orBit data (w.position + i) (value >>> i % 2))
    (padded w.data (w.position + count))
  have hrun : bits value count w =
      .ok ((), { w with data, position := w.position + count }) :=
    if_neg (Nat.not_lt.mpr (bitlen_le_iff.mpr hvalue))
  have hpadded : (padded w.data (w.position + count)).length = (past.length + count + 7) / 8 := by
    rw [padded, List.length_append, List.length_replicate, hdata, length_toBytes, hposition]
    omega
  obtain ⟨hlength, hbits⟩ :=
    foldl_orBit value w.position count (padded w.data (w.position + count)) (by omega)
  refine ⟨_, hrun, hk, ?_, ?_⟩
  · show w.position + count = _
    rw [List.length_append, length_field, hposition]
  · apply ofBytes_injective
    · show data.length = _
      rw [hlength, hpadded, length_toBytes, List.length_append, length_field]
    · intro q
      show (ofBytes data).getD q false = _
      rw [hbits, getD_padded, hdata, getD_ofBytes_toBytes, getD_ofBytes_toBytes, hposition]
      by_cases hq : q < past.length
      · rw [List.getD_append _ _ _ _ hq]
        simp [Nat.not_le.mpr hq]
      · rw [List.getD_append_right _ _ _ _ (Nat.le_of_not_lt hq), getD_field,
          List.getD_eq_default _ _ (Nat.le_of_not_lt hq), Bool.false_or]
        congr 1
        exact decide_eq_decide.mpr (by omega)

end BitWriter

/-! ## Digits -/

theorem width_range {width : Nat} (h : width ∈ [8, 16, 32, 64]) :
    1 ≤ width ∧ width ≤ 64 ∧ 2 ∣ width := by
  revert width
  decide

theorem two_mul_groups_le {width v : Nat} (hwidth : 2 ∣ width) (h : v < 2 ^ width) :
    2 * groups v ≤ width := by
  have hsize := bitlen_le_iff.mpr h
  unfold groups
  omega

theorem lt_two_pow_groups (v : Nat) : v < 2 ^ (2 * groups v) := by
  apply bitlen_le_iff.mp
  unfold groups
  omega

/-- A digit with all bits set goes on. -/
theorem digits_of_le {k n : Nat} (hk : 1 ≤ k) (h : 2 ^ k - 1 ≤ n) :
    digits k n = field k (2 ^ k - 1) ++ digits k (n - (2 ^ k - 1)) := by
  have hpow : 2 ^ 1 ≤ 2 ^ k := Nat.pow_le_pow_right (by decide) hk
  have hpos : 0 < 2 ^ k - 1 := by omega
  unfold digits
  rw [Nat.div_eq_sub_div hpos h, Nat.mod_eq_sub_mod h, List.replicate_succ, List.flatten_cons,
    List.append_assoc]

theorem digits_of_lt {k n : Nat} (h : n < 2 ^ k - 1) : digits k n = field k n := by
  unfold digits
  rw [Nat.div_eq_of_lt h, Nat.mod_eq_of_lt h]
  rfl

namespace BitWriter

theorem spells_unitLoop {k : Nat} (hk : 1 ≤ k) (n : Nat) (past : List Bool) :
    Spells (Stands k) (fun w => (unitLoop k hk).run (n, w)) past (digits k n) () := by
  have hpow : 2 ^ 1 ≤ 2 ^ k := Nat.pow_le_pow_right (by decide) hk
  induction n using Nat.strong_induction_on generalizing past with
  | _ n ih =>
    intro w rest hw
    by_cases hdigit : 2 ^ k - 1 ≤ n
    · obtain ⟨t, hbits, ht⟩ := spells_bits (show 2 ^ k - 1 < 2 ^ k by omega) past w rest hw
      obtain ⟨u, hrest, hu⟩ := ih (n - (2 ^ k - 1)) (by omega) _ t rest ht
      have hround : (unitLoop k hk).body (n, w) = .inl (n - (2 ^ k - 1), t) := by
        simp only [unitLoop, if_pos hdigit, hbits]
      refine ⟨u, (Loop.run_of_next _ hround).trans hrest, ?_⟩
      rw [digits_of_le hk hdigit, ← List.append_assoc]
      exact hu
    · have hvalue : n < 2 ^ k := by omega
      obtain ⟨t, hbits, ht⟩ := spells_bits hvalue past w rest hw
      have hround : (unitLoop k hk).body (n, w) = .inr (bits n k w) := by
        simp only [unitLoop, if_neg hdigit]
      refine ⟨t, (Loop.run_of_stop _ hround).trans hbits, ?_⟩
      rw [digits_of_lt (Nat.lt_of_not_le hdigit)]
      exact ht

theorem spells_units {k : Nat} (n : Nat) (past : List Bool) :
    Spells (Stands k) (units n) past (digits k n) () := by
  rintro w rest ⟨rfl, hw⟩
  exact spells_unitLoop w.one_le_k n past w rest ⟨rfl, hw⟩

theorem spells_packed {k width : Nat} {v : Int} (hmin : -2 ^ (width - 1) ≤ v)
    (hmax : v < 2 ^ width) (past : List Bool) :
    Spells (Stands k) (packed v width) past (packedBits k width v) () := by
  unfold packed
  rw [if_neg (by simp [hmin, hmax])]
  exact (spells_units _ _).bind (spells_bits (lt_two_pow_groups _) _)

theorem spells_signedMagnitude {k width : Nat} {v : Int} (hk : 1 ≤ k ∧ k ≤ 8)
    (hwidth : width ∈ [8, 16, 32, 64]) (h : v.natAbs < 2 ^ width) (past : List Bool) :
    Spells (Stands k) (signedMagnitude v width) past (magnitudeBits k v) () := by
  unfold signedMagnitude
  refine Spells.get fun w rest hw => ?_
  obtain ⟨rfl, -⟩ := hw
  have hcheck : ¬(width ∉ [8, 16, 32, 64] ∨ 2 ^ width ≤ v.natAbs ∨ ¬(1 ≤ w.k ∧ w.k ≤ 8)) := by
    rintro (hbad | hbad | hbad)
    · exact hbad hwidth
    · exact Nat.not_le.mpr h hbad
    · exact hbad hk
  rw [if_neg hcheck]
  have hsign : (decide (v < 0)).toNat < 2 ^ 1 := Bool.toNat_lt _
  exact (spells_units _ _).bind ((spells_bits hsign _).bind (spells_bits (lt_two_pow_groups _) _))

theorem spells_strictBoundary {k : Nat} (past : List Bool) :
    Spells (Stands k) strictBoundary past (boundaryBits past) () := by
  refine Spells.get fun w rest hw => ?_
  rw [hw.2.1]
  exact spells_bits (Nat.two_pow_pos _) past

end BitWriter

namespace BitReader

theorem spells_unitLoop {k width total : Nat} (hk : 1 ≤ k) (hk' : k ≤ 8) (n : Nat)
    (htotal : 2 * total ≤ width) (hn : n ≤ total) (past : List Bool) :
    Spells (Stands k) (fun r => (unitLoop width k hk).run (total - n, r)) past (digits k n)
      (2 * total) := by
  have hpow : 2 ^ 1 ≤ 2 ^ k := Nat.pow_le_pow_right (by decide) hk
  induction n using Nat.strong_induction_on generalizing past with
  | _ n ih =>
    intro r rest hr
    by_cases hdigit : 2 ^ k - 1 ≤ n
    · rw [digits_of_le hk hdigit, List.append_assoc] at hr
      obtain ⟨t, hbits, ht⟩ := spells_field (Nat.le_trans hk' (by decide))
        (show 2 ^ k - 1 < 2 ^ k by omega) past r _ hr
      obtain ⟨u, hrest, hu⟩ := ih (n - (2 ^ k - 1)) (by omega) (by omega) _ t rest ht
      have hround : (unitLoop width k hk).body (total - n, r) =
          .inl (total - (n - (2 ^ k - 1)), t) := by
        simp only [unitLoop, hbits]
        rw [if_neg (by omega), if_neg (by simp)]
        congr 2
        omega
      refine ⟨u, (Loop.run_of_next _ hround).trans hrest, ?_⟩
      rw [digits_of_le hk hdigit, ← List.append_assoc]
      exact hu
    · rw [digits_of_lt (Nat.lt_of_not_le hdigit)] at hr ⊢
      obtain ⟨t, hbits, ht⟩ := spells_field (Nat.le_trans hk' (by decide))
        (show n < 2 ^ k by omega) past r _ hr
      have hround : (unitLoop width k hk).body (total - n, r) = .inr (.ok (2 * total, t)) := by
        simp only [unitLoop, hbits]
        rw [if_neg (by omega), if_pos (by omega), Nat.sub_add_cancel hn]
      exact ⟨t, Loop.run_of_stop _ hround, ht⟩

/-- A packed integer has the length that its digits say. -/
theorem spells_packedLength {k width n : Nat} (hk : 1 ≤ k ∧ k ≤ 8)
    (hwidth : width ∈ [8, 16, 32, 64]) (hn : 2 * n ≤ width) (past : List Bool) :
    Spells (Stands k) (packedLength width) past (digits k n) (2 * n) := by
  rintro r rest ⟨rfl, hr⟩
  obtain ⟨t, hrun, ht⟩ :=
    spells_unitLoop hk.1 hk.2 n hn (Nat.le_refl n) past r rest ⟨rfl, hr⟩
  refine ⟨t, ?_, ht⟩
  unfold packedLength
  rw [dif_pos ⟨hk.1, hk.2, hwidth⟩]
  rw [Nat.sub_self] at hrun
  exact hrun

/-- What a read of a packed integer answers: the value modulo the storage, in the
signed range for a signed read. -/
def packedValue (width : Nat) (signed : Bool) (v : Int) : Int :=
  if signed then v.bmod (2 ^ width) else v % 2 ^ width

theorem packedValue_eq {width : Nat} (hwidth : 1 ≤ width) (signed : Bool) (v : Int) :
    (if signed ∧ ((v % 2 ^ width).toNat).testBit (width - 1) then
      ((v % 2 ^ width).toNat : Int) - 2 ^ width else (v % 2 ^ width).toNat) =
      packedValue width signed v := by
  have hpow : 2 ^ width = 2 * 2 ^ (width - 1) := by
    rw [← Nat.pow_succ', Nat.succ_eq_add_one, Nat.sub_add_cancel hwidth]
  have hcast : ((2 ^ width : Nat) : Int) = 2 ^ width := by simp
  have hpos : (0 : Int) < 2 ^ width := Int.pow_pos (by decide)
  have hnonneg : 0 ≤ v % 2 ^ width := Int.emod_nonneg _ (by omega)
  have hlt : v % 2 ^ width < 2 ^ width := Int.emod_lt_of_pos _ hpos
  obtain ⟨masked, hmasked⟩ := Int.eq_ofNat_of_zero_le hnonneg
  have hbit : masked.testBit (width - 1) = true ↔ 2 ^ (width - 1) ≤ masked := by
    constructor
    · exact Nat.ge_two_pow_of_testBit
    · intro h
      exact Nat.testBit_of_two_pow_le_and_two_pow_add_one_gt h
        (by rw [Nat.sub_add_cancel hwidth]; omega)
  unfold packedValue
  cases signed with
  | false => simp [hmasked]
  | true =>
    simp only [Int.bmod, hcast, hmasked, Int.toNat_natCast, hbit, true_and, if_true]
    split <;> split <;> omega

theorem spells_packed {k width : Nat} (hk : 1 ≤ k ∧ k ≤ 8) (hwidth : width ∈ [8, 16, 32, 64])
    (signed : Bool) (v : Int) (past : List Bool) :
    Spells (Stands k) (packed width signed) past (packedBits k width v)
      (packedValue width signed v) := by
  obtain ⟨hpos, hmax, heven⟩ := width_range hwidth
  have hmasked : (v % 2 ^ width).toNat < 2 ^ width := by
    have hcast : ((2 ^ width : Nat) : Int) = 2 ^ width := by simp
    have hlt := Int.emod_lt_of_pos v (show (0 : Int) < 2 ^ width from Int.pow_pos (by decide))
    have := Nat.two_pow_pos width
    omega
  have hgroups := two_mul_groups_le heven hmasked
  refine (spells_packedLength hk hwidth hgroups past).bind ?_
  rw [← packedValue_eq hpos]
  exact (spells_field (Nat.le_trans hgroups hmax) (lt_two_pow_groups _) _).map fun value =>
    if signed ∧ value.testBit (width - 1) then (value : Int) - 2 ^ width else value

theorem spells_signedMagnitude {k width : Nat} (hk : 1 ≤ k ∧ k ≤ 8)
    (hwidth : width ∈ [8, 16, 32, 64]) {v : Int} (h : v.natAbs < 2 ^ width) (past : List Bool) :
    Spells (Stands k) (signedMagnitude width) past (magnitudeBits k v) v := by
  obtain ⟨-, hmax, heven⟩ := width_range hwidth
  have hgroups := two_mul_groups_le heven h
  have hsign : (decide (v < 0)).toNat < 2 ^ 1 := Bool.toNat_lt _
  have hvalue : (if (decide (v < 0)).toNat ≠ 0 then -(v.natAbs : Int) else v.natAbs) = v := by
    by_cases hneg : v < 0
    · rw [decide_eq_true hneg, Bool.toNat_true, if_pos (by decide)]
      omega
    · rw [decide_eq_false hneg, Bool.toNat_false, if_neg (by decide)]
      omega
  refine (spells_packedLength hk hwidth hgroups past).bind ?_
  refine (spells_field (by decide) hsign _).bind ?_
  have hread := (spells_field (k := k) (Nat.le_trans hgroups hmax) (lt_two_pow_groups v.natAbs)
    (past ++ digits k (groups v.natAbs) ++ field 1 (decide (v < 0)).toNat)).map fun value =>
      if (decide (v < 0)).toNat ≠ 0 then -(value : Int) else value
  rwa [hvalue] at hread

theorem spells_strictBoundary {k : Nat} (past : List Bool) :
    Spells (Stands k) strictBoundary past (boundaryBits past) ((boundaryBits past).length, 0) := by
  intro r rest hr
  obtain ⟨hk, hposition, htape⟩ := hr
  obtain ⟨t, hbits, ht⟩ := spells_field (v := 0) (by omega) (Nat.two_pow_pos _) past r rest
    ⟨hk, hposition, htape⟩
  refine ⟨t, ?_, ht⟩
  unfold strictBoundary
  rw [hposition]
  simp only [hbits, boundaryBits, length_field]

end BitReader

/-! ## Values in their storage -/

/-- The values that a read of this width and sign can answer. -/
def InStorage (width : Nat) (signed : Bool) (v : Int) : Prop :=
  if signed then -2 ^ (width - 1) ≤ v ∧ v < 2 ^ (width - 1) else 0 ≤ v ∧ v < 2 ^ width

instance (width : Nat) (signed : Bool) (v : Int) : Decidable (InStorage width signed v) := by
  unfold InStorage
  infer_instance

namespace InStorage

variable {k width : Nat} {signed : Bool} {v : Int}

theorem writable (hwidth : 1 ≤ width) (h : InStorage width signed v) :
    -2 ^ (width - 1) ≤ v ∧ v < 2 ^ width := by
  have hpow : (2 : Int) ^ width = 2 * 2 ^ (width - 1) := by
    rw [← Int.pow_succ', Nat.sub_add_cancel hwidth]
  have hpos : (0 : Int) < 2 ^ (width - 1) := Int.pow_pos (by decide)
  unfold InStorage at h
  cases signed with
  | false =>
    simp only [Bool.false_eq_true, if_false] at h
    omega
  | true =>
    simp only [if_true] at h
    omega

theorem packedValue_eq (hwidth : 1 ≤ width) (h : InStorage width signed v) :
    BitReader.packedValue width signed v = v := by
  have hpow : 2 ^ width = 2 * 2 ^ (width - 1) := by
    rw [← Nat.pow_succ', Nat.succ_eq_add_one, Nat.sub_add_cancel hwidth]
  have hcast : ((2 ^ (width - 1) : Nat) : Int) = 2 ^ (width - 1) := by simp
  unfold InStorage at h
  unfold BitReader.packedValue
  cases signed with
  | false =>
    simp only [Bool.false_eq_true, if_false] at h ⊢
    exact Int.emod_eq_of_lt h.1 h.2
  | true =>
    simp only [if_true] at h ⊢
    exact Int.bmod_eq_of_le_mul_two (by omega) (by omega)

/-- What is written is read back. -/
theorem spells_write (hwidth : width ∈ [8, 16, 32, 64]) (h : InStorage width signed v)
    (past : List Bool) :
    Spells (BitWriter.Stands k) (BitWriter.packed v width) past (packedBits k width v) () := by
  obtain ⟨hmin, hmax⟩ := h.writable (width_range hwidth).1
  exact BitWriter.spells_packed hmin hmax past

theorem spells_writeNat {n : Nat} (h : n < 2 ^ width) (past : List Bool) :
    Spells (BitWriter.Stands k) (BitWriter.packed n width) past (packedBits k width n) () := by
  have hcast : ((2 ^ width : Nat) : Int) = 2 ^ width := by simp
  have hpos : (0 : Int) < 2 ^ (width - 1) := Int.pow_pos (by decide)
  exact BitWriter.spells_packed (by omega) (by omega) past

theorem spells_read (hk : 1 ≤ k ∧ k ≤ 8) (hwidth : width ∈ [8, 16, 32, 64])
    (h : InStorage width signed v) (past : List Bool) :
    Spells (BitReader.Stands k) (BitReader.packed width signed) past (packedBits k width v) v := by
  have hread := BitReader.spells_packed hk hwidth signed v past
  rwa [h.packedValue_eq (width_range hwidth).1] at hread

theorem spells_readNat {n : Nat} (hk : 1 ≤ k ∧ k ≤ 8) (hwidth : width ∈ [8, 16, 32, 64])
    (h : n < 2 ^ width) (past : List Bool) :
    Spells (BitReader.Stands k) (BitReader.packedNat width) past (packedBits k width n) n := by
  have hstorage : InStorage width false n := by
    have hcast : ((2 ^ width : Nat) : Int) = 2 ^ width := by simp
    exact ⟨Int.natCast_nonneg n, by omega⟩
  exact (hstorage.spells_read hk hwidth past).map Int.toNat

end InStorage

/-! ## Streams of operations -/

/-- An operation of the writer.  The sign of a packed integer is how it is read. -/
inductive BitOperation where
  | bits (value count : Nat)
  | packed (value : Int) (width : Nat) (signed : Bool)
  | signedMagnitude (value : Int) (width : Nat)
  | strictBoundary
  deriving DecidableEq, Repr

/-- What the reader answers: a value, or the padding bits and their value. -/
inductive BitAnswer where
  | value (v : Int)
  | padding (count value : Nat)
  deriving DecidableEq, Repr

namespace BitOperation

/-- The values that an operation can write. -/
def Fits : BitOperation → Prop
  | bits value count => count ≤ 64 ∧ value < 2 ^ count
  | packed value width _ =>
    width ∈ [8, 16, 32, 64] ∧ -2 ^ (width - 1) ≤ value ∧ value < 2 ^ width
  | signedMagnitude value width => width ∈ [8, 16, 32, 64] ∧ value.natAbs < 2 ^ width
  | strictBoundary => True

instance (op : BitOperation) : Decidable op.Fits := by
  cases op <;> unfold Fits <;> infer_instance

def write : BitOperation → BitEncoder Unit
  | bits value count => BitWriter.bits value count
  | packed value width _ => BitWriter.packed value width
  | signedMagnitude value width => BitWriter.signedMagnitude value width
  | strictBoundary => BitWriter.strictBoundary

/-- The read that matches the operation. -/
def read : BitOperation → BitDecoder BitAnswer
  | bits _ count => do
    let value ← BitReader.bits count
    return .value value
  | packed _ width signed => do
    let value ← BitReader.packed width signed
    return .value value
  | signedMagnitude _ width => do
    let value ← BitReader.signedMagnitude width
    return .value value
  | strictBoundary => do
    let (count, value) ← BitReader.strictBoundary
    return .padding count value

/-- The operation, and where the writer stands behind it. -/
def writeStep (op : BitOperation) : BitEncoder Nat := do
  op.write
  let w ← get
  return w.position

/-- The matching read, and where the reader stands behind it. -/
def readStep (op : BitOperation) : BitDecoder (BitAnswer × Nat) := do
  let answer ← op.read
  let r ← get
  return (answer, r.position)

/-- The answer to the matching read, for an operation at a position. -/
def answer (position : Nat) : BitOperation → BitAnswer
  | bits value _ => .value value
  | packed value width signed =>
    .value (if signed then value.bmod (2 ^ width) else value % 2 ^ width)
  | signedMagnitude value _ => .value value
  | strictBoundary => .padding (8 * (position / 8 + 1) - position) 0

/-- The bits of an operation behind others. -/
def word (k : Nat) (past : List Bool) : BitOperation → List Bool
  | bits value count => field count value
  | packed value width _ => packedBits k width value
  | signedMagnitude value _ => magnitudeBits k value
  | strictBoundary => boundaryBits past

theorem spells_write {k : Nat} (hk : 1 ≤ k ∧ k ≤ 8) {op : BitOperation} (h : op.Fits)
    (past : List Bool) : Spells (BitWriter.Stands k) op.write past (op.word k past) () := by
  cases op with
  | bits value count => exact BitWriter.spells_bits h.2 past
  | packed value width signed => exact BitWriter.spells_packed h.2.1 h.2.2 past
  | signedMagnitude value width => exact BitWriter.spells_signedMagnitude hk h.1 h.2 past
  | strictBoundary => exact BitWriter.spells_strictBoundary past

theorem spells_read {k : Nat} (hk : 1 ≤ k ∧ k ≤ 8) {op : BitOperation} (h : op.Fits)
    (past : List Bool) :
    Spells (BitReader.Stands k) op.read past (op.word k past) (op.answer past.length) := by
  cases op with
  | bits value count =>
    exact (BitReader.spells_field h.1 h.2 past).map fun value => BitAnswer.value value
  | packed value width signed =>
    exact (BitReader.spells_packed hk h.1 signed value past).map BitAnswer.value
  | signedMagnitude value width =>
    exact (BitReader.spells_signedMagnitude hk h.1 h.2 past).map BitAnswer.value
  | strictBoundary =>
    have hread := (BitReader.spells_strictBoundary (k := k) past).map fun padding =>
      BitAnswer.padding padding.1 padding.2
    rw [boundaryBits, length_field] at hread
    exact hread

theorem spells_writeStep {k : Nat} (hk : 1 ≤ k ∧ k ≤ 8) {op : BitOperation} (h : op.Fits)
    (past : List Bool) :
    Spells (BitWriter.Stands k) op.writeStep past (op.word k past)
      (past ++ op.word k past).length := by
  refine (spells_write hk h past).bind_nil (Spells.get fun w rest hw => ?_)
  rw [hw.2.1]
  exact .pure _ _

theorem spells_readStep {k : Nat} (hk : 1 ≤ k ∧ k ≤ 8) {op : BitOperation} (h : op.Fits)
    (past : List Bool) :
    Spells (BitReader.Stands k) op.readStep past (op.word k past)
      (op.answer past.length, (past ++ op.word k past).length) := by
  refine (spells_read hk h past).bind_nil (Spells.get fun r rest hr => ?_)
  rw [hr.2.1]
  exact .pure _ _

end BitOperation

open BitOperation

theorem BitWriter.stands_withDigits {k : Nat} (hk : 1 ≤ k) (rest : List Bool) :
    Stands k (.withDigits k hk) [] rest := ⟨rfl, rfl, rfl⟩

/-- A reader over what a writer has written, with any limit up to the end of the bytes. -/
theorem BitReader.stands_withLimit {k : Nat} (hk : 1 ≤ k ∧ k ≤ 8) {word : List Bool} {limit : Nat}
    (hmin : word.length ≤ limit) (hmax : limit ≤ 8 * (toBytes word).length) :
    ∃ r rest, BitReader.withLimit (toBytes word) limit k = .ok r ∧
      BitReader.Stands k r [] (word ++ rest) := by
  refine ⟨_, (List.replicate (8 * ((word.length + 7) / 8) - word.length) false).take
    (limit - word.length), dif_pos ⟨by omega, hk.1, hk.2⟩, rfl, rfl, ?_⟩
  show (ofBytes (toBytes word)).take limit = _
  rw [ofBytes_toBytes, List.take_append, List.take_of_length_le hmin, List.nil_append]

/-- Where the operations end, from where they start. -/
def ends (k : Nat) (past : List Bool) (ops : List BitOperation) : List Nat :=
  (behind (word k) past ops).map fun p => (p.1 ++ p.2.word k p.1).length

theorem answers_eq (k : Nat) (past : List Bool) (ops : List BitOperation) :
    (behind (word k) past ops).map
        (fun p => (p.2.answer p.1.length, (p.1 ++ p.2.word k p.1).length)) =
      (ops.zip ((past.length :: ends k past ops).zip (ends k past ops))).map
        fun p => (p.1.answer p.2.1, p.2.2) := by
  induction ops generalizing past with
  | nil => rfl
  | cons op ops ih =>
    simp only [behind, ends, List.map_cons, List.zip_cons_cons] at ih ⊢
    rw [ih]

/-- Whatever is written, the reader answers it, in step with the writer: every write
succeeds, and the matching reads give the values of the operations and stand where
the writer stood. -/
theorem stream_round_trip {k : Nat} (hk : 1 ≤ k) (hmax : k ≤ 8) (ops : List BitOperation)
    (h : ∀ op ∈ ops, op.Fits) :
    ∃ w positions, Decoder.each writeStep ops (.withDigits k hk) = .ok (positions, w) ∧
      ∀ limit, w.position ≤ limit → limit ≤ 8 * w.data.length →
        ∃ r t, BitReader.withLimit w.data limit k = .ok r ∧
          Decoder.each readStep ops r =
            .ok ((ops.zip ((0 :: positions).zip positions)).map
              fun p => (p.1.answer p.2.1, p.2.2), t) ∧
          t.position = w.position := by
  have hwriter : Spells (BitWriter.Stands k) (Decoder.each writeStep ops) []
      (spelling (word k) [] ops) (ends k [] ops) :=
    Spells.each [] fun past op hop => spells_writeStep ⟨hk, hmax⟩ (h op hop) past
  have hreader : Spells (BitReader.Stands k) (Decoder.each readStep ops) []
      (spelling (word k) [] ops) _ :=
    Spells.each [] fun past op hop => spells_readStep ⟨hk, hmax⟩ (h op hop) past
  obtain ⟨w, hwrite, -, hposition, hdata⟩ :=
    hwriter (.withDigits k hk) [] (BitWriter.stands_withDigits hk _)
  rw [List.nil_append] at hposition hdata
  refine ⟨w, _, hwrite, fun limit hlow hhigh => ?_⟩
  rw [hposition] at hlow
  rw [hdata] at hhigh
  obtain ⟨r, rest, hr, hstands⟩ := BitReader.stands_withLimit ⟨hk, hmax⟩ hlow hhigh
  obtain ⟨t, hread, -, ht, -⟩ := hreader r rest hstands
  refine ⟨r, t, by rw [hdata]; exact hr, ?_, by rw [ht, hposition, List.nil_append]⟩
  rw [hread, answers_eq k [] ops]
  rfl

/-- A negative value, a full one and a boundary, with digits of three bits. -/
def sampleOperations : List BitOperation :=
  [.bits 5 3, .packed (-2) 64 true, .signedMagnitude (-7) 16, .strictBoundary,
    .packed 255 8 false]

theorem stream_round_trip_sample :
    ∃ w positions,
      Decoder.each writeStep sampleOperations (.withDigits 3 (by decide)) = .ok (positions, w) ∧
      ∀ limit, w.position ≤ limit → limit ≤ 8 * w.data.length →
        ∃ r t, BitReader.withLimit w.data limit 3 = .ok r ∧
          Decoder.each readStep sampleOperations r =
            .ok ((sampleOperations.zip ((0 :: positions).zip positions)).map
              fun p => (p.1.answer p.2.1, p.2.2), t) ∧
          t.position = w.position :=
  stream_round_trip (by decide) (by decide) sampleOperations (by decide)

example : (Decoder.each writeStep sampleOperations (.withDigits 3 (by decide))).map Prod.fst =
    .ok [3, 82, 90, 96, 107] := by decide +kernel

end Mt5Open.Native
