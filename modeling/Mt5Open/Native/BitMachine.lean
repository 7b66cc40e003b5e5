import Mt5Open.Native.Bitpack
import Mt5Open.Native.Checked

/-!
# The bit reader with its indices and its arithmetic

The reader here looks every byte up by its index and computes in `usize`, `u64` and
`i128`.  A byte that is not there and a value that does not fit are panics.

The lemmas `*_refines` say that over data whose bits can be counted it panics nowhere and
answers as `BitReader` does, and how large what it reads can be.
-/

namespace Mt5Open.Native.BitReader.Machine

open Lib Checked
open Decoder (ofResult rounds)

/-! ## The reader -/

abbrev Step := Decoder Fault BitReader

def fail {α : Type} (message : String) : Step α := Decoder.raise (.rejected ⟨message⟩)

/-- `BitReader::with_limit`. -/
def withLimit (data : Bytes) (limit k : Nat) : Except Fault BitReader := do
  let _ ← mul data.length 8
  Fault.ofResult (BitReader.withLimit data limit k)

/-- One bit of a field, put into its value. -/
def orBit (r : BitReader) (value i : Nat) : Except Fault Nat := do
  let p ← add r.position i
  let byte ← index r.data (p / 8)
  return value ||| (byte.toNat >>> (p % 8) % 2) <<< i

/-- `BitReader::bits`.  The end of the field is a saturating sum. -/
def bits (count : Nat) : Step Nat := do
  let r ← get
  if 64 < count ∨ r.limit < min (r.position + count) (2 ^ 64 - 1) then fail "truncated bit field"
  else
    let value ← ofResult ((List.range count).foldlM (orBit r) 0)
    let position ← ofResult (add r.position count)
    set { r with position }
    return value

/-- One round of the loop in `BitReader::prefix`. -/
def digitRound (width k sentinel units : Nat) : Step (Nat ⊕ Nat) := do
  let digit ← bits k
  let units ← ofResult (add units digit)
  let length ← ofResult (mul 2 units)
  if width < length then fail "packed integer exceeds storage width"
  else if digit ≠ sentinel then return .inr length
  else return .inl units

theorem bits_remaining {count v : Nat} {r t : BitReader} (h : bits count r = .ok (v, t)) :
    t.remaining + count = r.remaining := by
  obtain ⟨_, _, hget, hrest⟩ := Decoder.bind_eq_ok.mp h
  cases Except.ok.inj hget
  split at hrest
  · cases hrest
  rename_i hfield
  obtain ⟨value, _, _, hrest⟩ := Decoder.bind_eq_ok.mp hrest
  obtain ⟨position, _, hadd, hrest⟩ := Decoder.bind_eq_ok.mp hrest
  obtain ⟨_, _, hset, hrest⟩ := Decoder.bind_eq_ok.mp hrest
  obtain ⟨-, rfl⟩ := Decoder.pure_eq_ok.mp hrest
  cases Except.ok.inj hset
  have hposition := (Decoder.ofResult_eq_ok.mp hadd).1
  have hlt := add_lt hposition
  obtain rfl := add_eq_ok hposition
  simp only [remaining]
  omega

theorem shrinks_bits (count : Nat) : Decoder.Shrinks remaining (bits count) := by
  intro r v t h
  have := bits_remaining h
  omega

theorem digitRound_remaining {width k sentinel units : Nat} {r t : BitReader} {x : Nat ⊕ Nat}
    (h : digitRound width k sentinel units r = .ok (x, t)) : t.remaining + k ≤ r.remaining := by
  obtain ⟨digit, middle, hbits, hrest⟩ := Decoder.Shrinks.le_of_bind (m := remaining) h fun digit =>
    (Decoder.Shrinks.ofResult _).bind fun _ => (Decoder.Shrinks.ofResult _).bind fun _ =>
      (Decoder.Shrinks.raise _).ite ((Decoder.Shrinks.pure _).ite (.pure _))
  have := bits_remaining hbits
  omega

/-- The loop of `BitReader::prefix`, over the sum of the digits. -/
def unitLoop (width k sentinel : Nat) (hk : 1 ≤ k) :
    Loop (Nat × BitReader) (Except Fault (Nat × BitReader)) :=
  rounds remaining (digitRound width k sentinel) fun _ _ _ _ h => by
    have := digitRound_remaining h
    omega

/-- `BitReader::prefix`. -/
def packedLength (width : Nat) : Step Nat := fun r =>
  if h : 1 ≤ r.k ∧ r.k ≤ 8 ∧ width ∈ [8, 16, 32, 64] then do
    let sentinel ← sub (2 ^ r.k) 1
    (unitLoop width r.k sentinel (Nat.succ_le_of_lt h.1)).run (0, r)
  else .error (.rejected ⟨"unsupported packed width"⟩)

/-- `BitReader::signed_magnitude`. -/
def signedMagnitude (width : Nat) : Step Int := do
  let length ← packedLength width
  let negative ← bits 1
  let value ← bits length
  if negative ≠ 0 then ofResult (i128 (-(value : Int))) else return value

/-- `BitReader::packed`. -/
def packed (width : Nat) (signed : Bool) : Step Int := do
  let length ← packedLength width
  let value ← bits length
  let top ← ofResult (sub width 1)
  if signed ∧ value.testBit top then ofResult (i128 ((value : Int) - 2 ^ width)) else return value

/-- `packed` for a value that is not signed. -/
def packedNat (width : Nat) : Step Nat := do
  let v ← packed width false
  return v.toNat

theorem packedLength_remaining {width length : Nat} {r t : BitReader}
    (h : packedLength width r = .ok (length, t)) : t.remaining < r.remaining := by
  unfold packedLength at h
  split at h
  · rename_i hk
    obtain ⟨sentinel, -, hrun⟩ := except_bind_eq_ok.mp h
    refine Decoder.rounds_lt (fun units s x u hround => ?_) hrun
    have := digitRound_remaining hround
    omega
  · cases h

theorem packed_remaining {width : Nat} {signed : Bool} {v : Int} {r t : BitReader}
    (h : packed width signed r = .ok (v, t)) : t.remaining < r.remaining := by
  obtain ⟨length, middle, hlength, hrest⟩ := Decoder.Shrinks.le_of_bind h fun length =>
    (shrinks_bits length).bind fun _ => (Decoder.Shrinks.ofResult _).bind fun _ =>
      (Decoder.Shrinks.ofResult _).ite (.pure _)
  exact Nat.lt_of_le_of_lt hrest (packedLength_remaining hlength)

theorem shrinks_packedLength (width : Nat) : Decoder.Shrinks remaining (packedLength width) :=
  fun _ _ _ h => Nat.le_of_lt (packedLength_remaining h)

theorem shrinks_packed (width : Nat) (signed : Bool) :
    Decoder.Shrinks remaining (packed width signed) :=
  fun _ _ _ h => Nat.le_of_lt (packed_remaining h)

theorem shrinks_packedNat (width : Nat) : Decoder.Shrinks remaining (packedNat width) :=
  (shrinks_packed width false).bind fun _ => .pure _

theorem shrinks_signedMagnitude (width : Nat) :
    Decoder.Shrinks remaining (signedMagnitude width) :=
  (shrinks_packedLength width).bind fun length => (shrinks_bits 1).bind fun _ =>
    (shrinks_bits length).bind fun _ => (Decoder.Shrinks.ofResult _).ite (.pure _)

/-! ## The machine answers as the reader does -/

/-- The machine and the reader agree from this position on. -/
abbrev Refines {α : Type} (x : Step α) (y : BitDecoder α) (r : BitReader)
    (Q : α → BitReader → Prop) : Prop :=
  Decoder.Refines Fault.rejected (fun r => r) x y r Q

/-- The bits of the data can be counted. -/
def Small (r : BitReader) : Prop := 8 * r.data.length < 2 ^ 40

/-- The value of a field of bits. -/
theorem foldl_bit_lt (r : BitReader) (position count : Nat) :
    (List.range count).foldl (fun value i => value ||| r.bit (position + i) <<< i) 0 <
      2 ^ count := by
  induction count with
  | zero => exact Nat.one_pos
  | succ count ih =>
    rw [List.range_succ, List.foldl_append, List.foldl_cons, List.foldl_nil]
    refine Nat.or_lt_two_pow (Nat.lt_trans ih (Nat.pow_lt_pow_right (by decide) (by omega))) ?_
    have hbit : r.bit (position + count) < 2 := Nat.mod_lt _ (by decide)
    rw [Nat.shiftLeft_eq, Nat.pow_succ, Nat.mul_comm]
    exact Nat.mul_lt_mul_of_pos_left hbit (Nat.two_pow_pos count)

theorem bits_refines {r : BitReader} (hr : Small r) (count : Nat) :
    Refines (bits count) (BitReader.bits count) r
      fun v t => v < 2 ^ count ∧ Small t ∧ t.remaining ≤ r.remaining := by
  have hlimit := r.limit_le
  unfold Small at hr
  refine .get ?_
  by_cases hfield : 64 < count ∨ r.limit < r.position + count
  · rw [if_pos (by omega), Decoder.Refines, BitReader.bits, if_pos hfield]
    rfl
  rw [if_neg (by omega)]
  have hvalue : (List.range count).foldlM (orBit r) 0 = .ok ((List.range count).foldl
      (fun value i => value ||| r.bit (r.position + i) <<< i) 0) := by
    refine foldlM_ok (fun value i hi => ?_) 0
    have hcount := List.mem_range.mp hi
    have hbyte : (r.position + i) / 8 < r.data.length := by omega
    rw [orBit, add_of_lt (by omega)]
    show (index r.data ((r.position + i) / 8) >>= _) = _
    rw [index_of_lt hbyte, bit, List.getD_eq_getElem _ _ hbyte]
    rfl
  refine .checked hvalue (.checked (add_of_lt (by omega)) ?_)
  rw [Decoder.Refines, BitReader.bits, if_neg hfield]
  refine ⟨{ r with position := r.position + count }, rfl, rfl, foldl_bit_lt r _ count, hr, ?_⟩
  simp only [remaining]
  omega

theorem digitRound_of_error {width k sentinel units : Nat} {r : BitReader} {e : ProtocolError}
    (hr : Small r) (h : BitReader.bits k r = .error e) :
    digitRound width k sentinel units r = .error (.rejected e) := by
  have hbits := bits_refines hr k
  rw [Refines, Decoder.Refines, h] at hbits
  exact Decoder.bind_of_error hbits

theorem digitRound_of_ok {width k sentinel units digit : Nat} {r t : BitReader} (hr : Small r)
    (hunits : units < 2 ^ 60) (hk : k ≤ 8) (h : BitReader.bits k r = .ok (digit, t)) :
    digitRound width k sentinel units r =
        (if width < 2 * (units + digit) then
          .error (.rejected ⟨"packed integer exceeds storage width"⟩)
        else if digit ≠ sentinel then .ok (.inr (2 * (units + digit)), t)
        else .ok (.inl (units + digit), t)) ∧
      Small t := by
  have hbits := bits_refines hr k
  rw [Refines, Decoder.Refines, h] at hbits
  obtain ⟨_, hrun, rfl, hdigit, ht, -⟩ := hbits
  have hpow : 2 ^ k ≤ 2 ^ 8 := Nat.pow_le_pow_right (by decide) hk
  refine ⟨?_, ht⟩
  rw [digitRound, Decoder.bind_of_ok hrun,
    Decoder.bind_of_ok (Decoder.ofResult_eq_ok.mpr ⟨add_of_lt (by omega), rfl⟩),
    Decoder.bind_of_ok (Decoder.ofResult_eq_ok.mpr ⟨mul_of_lt (by omega), rfl⟩)]
  split
  · rfl
  · split <;> rfl

/-- The number of bits of a packed integer is within its width. -/
theorem unitLoop_agrees {width k units : Nat} {r : BitReader} (hk : 1 ≤ k) (hk8 : k ≤ 8)
    (hwidth : width ≤ 64) (hr : Small r) (hunits : units < 2 ^ 60) :
    Decoder.Agrees Fault.rejected (fun r => r)
      ((unitLoop width k (2 ^ k - 1) hk).run (units, r))
      ((BitReader.unitLoop width k hk).run (units, r))
      fun length t => length ≤ width ∧ Small t := by
  refine Loop.run_sim (unitLoop width k (2 ^ k - 1) hk) (BitReader.unitLoop width k hk)
    (R := fun s t => t = s ∧ Small s.2 ∧ s.1 < 2 ^ 60)
    (S := fun x y => Decoder.Agrees Fault.rejected (fun r => r) x y fun length t =>
      length ≤ width ∧ Small t) ?_ ⟨rfl, hr, hunits⟩
  rintro ⟨units, r⟩ _ ⟨rfl, hr, hunits⟩
  dsimp only at hr hunits
  cases hbits : BitReader.bits k r with
  | error e =>
    refine .inl ⟨_, .error e, Decoder.rounds_of_error (digitRound_of_error hr hbits), ?_, rfl⟩
    simp only [BitReader.unitLoop, hbits]
  | ok p =>
    obtain ⟨digit, t⟩ := p
    obtain ⟨hround, ht⟩ := @digitRound_of_ok width k (2 ^ k - 1) units digit r t hr hunits hk8
      hbits
    by_cases hlarge : width < 2 * (units + digit)
    · rw [if_pos hlarge] at hround
      refine .inl ⟨_, reject "packed integer exceeds storage width",
        Decoder.rounds_of_error hround, ?_, rfl⟩
      simp only [BitReader.unitLoop, hbits, if_pos hlarge]
    rw [if_neg hlarge] at hround
    by_cases hlast : digit ≠ 2 ^ k - 1
    · rw [if_pos hlast] at hround
      refine .inl ⟨_, .ok (2 * (units + digit), t), Decoder.rounds_of_stop hround, ?_, t, rfl, rfl,
        Nat.le_of_not_lt hlarge, ht⟩
      simp only [BitReader.unitLoop, hbits, if_neg hlarge, if_pos hlast]
    · rw [if_neg hlast] at hround
      refine .inr ⟨_, (units + digit, t), Decoder.rounds_of_next hround, ?_, rfl, ht, ?_⟩
      · simp only [BitReader.unitLoop, hbits, if_neg hlarge, if_neg hlast]
      · dsimp only
        omega

theorem packedLength_refines {r : BitReader} (hr : Small r) (width : Nat) :
    Refines (packedLength width) (BitReader.packedLength width) r fun length t =>
      length ≤ width ∧ 1 ≤ width ∧ width ≤ 64 ∧ Small t ∧ t.remaining < r.remaining := by
  have hloop : Refines (packedLength width) (BitReader.packedLength width) r fun length t =>
      length ≤ width ∧ 1 ≤ width ∧ width ≤ 64 ∧ Small t := by
    rw [Refines, Decoder.Refines, packedLength, BitReader.packedLength]
    split
    · rename_i hk
      obtain ⟨hpos, hle, -⟩ := width_range hk.2.2
      rw [sub_of_le (Nat.two_pow_pos _)]
      have hagrees := @unitLoop_agrees width r.k 0 r hk.1 hk.2.1 hle hr (by decide)
      refine hagrees.mono fun length t ht => ?_
      exact ⟨ht.1, hpos, hle, ht.2⟩
    · rfl
  refine hloop.self.mono fun length t ht => ?_
  obtain ⟨hrun, hlength, hpos, hle, ht⟩ := ht
  exact ⟨hlength, hpos, hle, ht, packedLength_remaining hrun⟩

/-- A field of packed bits is within the width of the integer. -/
theorem value_refines {r : BitReader} (hr : Small r) {length width : Nat} (h : length ≤ width) :
    Refines (bits length) (BitReader.bits length) r
      fun v t => v < 2 ^ width ∧ Small t ∧ t.remaining ≤ r.remaining :=
  (bits_refines hr length).mono fun _ _ ⟨hv, ht⟩ =>
    ⟨Nat.lt_of_lt_of_le hv (Nat.pow_le_pow_right (by decide) h), ht⟩

theorem signedMagnitude_refines {r : BitReader} (hr : Small r) (width : Nat) :
    Refines (signedMagnitude width) (BitReader.signedMagnitude width) r
      fun v t => v.natAbs < 2 ^ width ∧ Small t ∧ t.remaining < r.remaining := by
  refine (packedLength_refines hr width).bind fun length s hs => ?_
  obtain ⟨hlength, -, hwidth, hs, hrest⟩ := hs
  refine (bits_refines hs 1).bind fun negative t ht => ?_
  obtain ⟨-, ht, hrest'⟩ := ht
  refine (value_refines ht hlength).bind fun value u hu => ?_
  obtain ⟨hvalue, hu, hrest''⟩ := hu
  have hpow : 2 ^ width ≤ 2 ^ 64 := Nat.pow_le_pow_right (by decide) hwidth
  by_cases hnegative : negative ≠ 0
  · rw [if_pos hnegative, if_pos hnegative, i128_of_natAbs_lt (by omega)]
    exact .pure ⟨by rwa [Int.natAbs_neg], hu, by omega⟩
  · rw [if_neg hnegative, if_neg hnegative]
    exact .pure ⟨hvalue, hu, by omega⟩

theorem packed_refines {r : BitReader} (hr : Small r) (width : Nat) (signed : Bool) :
    Refines (packed width signed) (BitReader.packed width signed) r
      fun v t => v.natAbs ≤ 2 ^ width ∧ v < 2 ^ width ∧ Small t ∧ t.remaining < r.remaining := by
  refine (packedLength_refines hr width).bind fun length s hs => ?_
  obtain ⟨hlength, hpos, hwidth, hs, hrest⟩ := hs
  refine (value_refines hs hlength).bind fun value t ht => ?_
  obtain ⟨hvalue, ht, hrest'⟩ := ht
  have hpow : 2 ^ width ≤ 2 ^ 64 := Nat.pow_le_pow_right (by decide) hwidth
  have hcast : ((2 ^ width : Nat) : Int) = 2 ^ width := Nat.cast_pow 2 width
  refine .checked (sub_of_le hpos) ?_
  by_cases hnegative : signed ∧ value.testBit (width - 1)
  · rw [if_pos hnegative, if_pos hnegative, ← hcast, i128_of_natAbs_lt (by omega)]
    exact .pure ⟨by omega, by omega, ht, by omega⟩
  · rw [if_neg hnegative, if_neg hnegative, ← hcast]
    exact .pure ⟨by omega, by omega, ht, by omega⟩

theorem packedNat_refines {r : BitReader} (hr : Small r) (width : Nat) :
    Refines (packedNat width) (BitReader.packedNat width) r
      fun _ t => Small t ∧ t.remaining < r.remaining :=
  (packed_refines hr width false).bind fun _ _ ⟨_, _, ht⟩ => .pure ht

end Mt5Open.Native.BitReader.Machine
