import Mt5Open.Lib.Unbounded
import Mt5Open.Native.BitMachine

/-!
# The bit writer with any number of bits to a digit

`k` is a public field of the writer, and the default value of the writer has 0 there.
`RawWriter` is the writer without a condition on `k`: a shift by 64 bits or more is a panic,
and the loop over the digits need not end, so it is run for a number of rounds.

`packed_readable_iff` says for which writers a packed integer comes to an end with an error
or with bits that the reader gives back: for those whose digits the reader takes.
-/

namespace Mt5Open.Native

open Lib

/-! ## The writer -/

@[ext]
structure RawWriter where
  data : Bytes
  position : Nat
  k : Nat
  deriving DecidableEq, Repr

namespace RawWriter

/-- `BitWriter::new`. -/
def new : RawWriter := ⟨[], 0, 2⟩

/-- `BitWriter::default`. -/
def default : RawWriter := ⟨[], 0, 0⟩

/-- `BitWriter::bits`.  The value is shifted by the index of each bit, in 128 bits. -/
def bits (value count : Nat) : Decoder Fault RawWriter Unit := fun w =>
  if count < bitlen value then .error (.rejected ⟨"value does not fit bit field"⟩)
  else if 128 < count then .error .panicked
  else
    let data := (List.range count).foldl
      (fun data i => BitWriter.orBit data (w.position + i) (value >>> i % 2))
      (BitWriter.padded w.data (w.position + count))
    .ok ((), { w with data, position := w.position + count })

/-- `(1u64 << k) - 1`. -/
def sentinel (k : Nat) : Except Fault Nat :=
  if k < 64 then .ok (2 ^ k - 1) else .error .panicked

/-- One round of the loop over the digits. -/
def digitRound (sentinel : Nat) (s : Nat × RawWriter) :
    (Nat × RawWriter) ⊕ Except Fault (Unit × RawWriter) :=
  if sentinel ≤ s.1 then
    match bits sentinel s.2.k s.2 with
    | .error e => .inr (.error e)
    | .ok (_, w) => .inl (s.1 - sentinel, w)
  else .inr (bits s.1 s.2.k s.2)

/-- The digits of a number, if the loop ends within this many rounds. -/
def units (rounds n : Nat) (w : RawWriter) : Option (Except Fault (Unit × RawWriter)) :=
  match sentinel w.k with
  | .error e => some (.error e)
  | .ok sentinel => (Unbounded.run (digitRound sentinel) rounds (n, w)).getRight?

/-- What is written behind the digits. -/
def andThen (x : Option (Except Fault (Unit × RawWriter))) (rest : Decoder Fault RawWriter Unit) :
    Option (Except Fault (Unit × RawWriter)) :=
  x.map fun written => do
    let (_, w) ← written
    rest w

/-- `BitWriter::packed`.  Its bounds are computed in 128 bits: one of them overflows unless
the width is from 1 to 127, and a width of 127 turns the upper one negative. -/
def packed (rounds : Nat) (value : Int) (width : Nat) (w : RawWriter) :
    Option (Except Fault (Unit × RawWriter)) :=
  if ¬(1 ≤ width ∧ width ≤ 127) then some (.error .panicked)
  else if ¬(-2 ^ (width - 1) ≤ value ∧ value < (2 ^ width : Int).bmod (2 ^ 128)) then
    some (.error (.rejected ⟨"integer out of range"⟩))
  else
    let masked := (value % 2 ^ width).toNat
    andThen (units rounds (groups masked) w) (bits masked (2 * groups masked))

/-- `BitWriter::signed_magnitude`. -/
def signedMagnitude (rounds : Nat) (value : Int) (width : Nat) (w : RawWriter) :
    Option (Except Fault (Unit × RawWriter)) :=
  if width ∉ [8, 16, 32, 64] ∨ 2 ^ width ≤ value.natAbs ∨ ¬(1 ≤ w.k ∧ w.k ≤ 8) then
    some (.error (.rejected ⟨"signed magnitude outside storage width"⟩))
  else
    let magnitude := value.natAbs
    andThen (units rounds (groups magnitude) w) (do
      bits (decide (value < 0)).toNat 1
      bits magnitude (2 * groups magnitude))

/-- `BitWriter::strict_boundary`. -/
def strictBoundary : Decoder Fault RawWriter Unit := fun w =>
  bits 0 (8 * (w.position / 8 + 1) - w.position) w

/-- The writers that the public functions make, with any value assigned to `k`. -/
inductive Constructed : RawWriter → Prop
  | new : Constructed new
  | default : Constructed default
  | assign {w : RawWriter} (hw : Constructed w) (k : Nat) : Constructed { w with k := k }
  | bits {w t : RawWriter} (hw : Constructed w) {value count : Nat}
      (h : bits value count w = .ok ((), t)) : Constructed t
  | packed {w t : RawWriter} (hw : Constructed w) {rounds width : Nat} {value : Int}
      (h : packed rounds value width w = some (.ok ((), t))) : Constructed t
  | signedMagnitude {w t : RawWriter} (hw : Constructed w) {rounds width : Nat} {value : Int}
      (h : signedMagnitude rounds value width w = some (.ok ((), t))) : Constructed t
  | strictBoundary {w t : RawWriter} (hw : Constructed w)
      (h : strictBoundary w = .ok ((), t)) : Constructed t

/-- `BitReader::new` over what a writer holds, with the digits and at the position of another
one. -/
def reader (t w : RawWriter) : BitReader :=
  { BitReader.new t.data with position := w.position, k := w.k }

/-! ## What a writer holds -/

open Lib.Bits Lib.Tape

/-- A writer that has written `past`. -/
def Stands (k : Nat) (w : RawWriter) (past _rest : List Bool) : Prop :=
  w.k = k ∧ w.position = past.length ∧ w.data = toBytes past

theorem spells_bits {k value count : Nat} (hcount : count ≤ 128) (hvalue : value < 2 ^ count)
    (past : List Bool) : Spells (Stands k) (bits value count) past (field count value) () := by
  rintro w rest ⟨hk, hposition, hdata⟩
  -- The writer with a condition on `k` does the same to the bytes.
  obtain ⟨t, hrun, -, htposition, htdata⟩ := BitWriter.spells_bits hvalue past
    ⟨w.data, w.position, 1, Nat.le_refl 1⟩ rest ⟨rfl, hposition, hdata⟩
  have hfits : ¬count < bitlen value := Nat.not_lt.mpr (bitlen_le_iff.mpr hvalue)
  rw [BitWriter.bits, if_neg hfits] at hrun
  cases Except.ok.inj hrun
  exact ⟨{ w with data := _, position := w.position + count },
    (if_neg hfits).trans (if_neg (Nat.not_lt.mpr hcount)), hk, htposition, htdata⟩

/-- The bytes of a writer are some bits, up to its position. -/
def Holds (w : RawWriter) : Prop := ∃ past, Stands w.k w past []

theorem Holds.bits {w t : RawWriter} (hw : w.Holds) {value count : Nat}
    (h : bits value count w = .ok ((), t)) : t.Holds := by
  obtain ⟨past, hpast⟩ := hw
  have hrun := h
  unfold RawWriter.bits at h
  split at h
  · cases h
  · rename_i hvalue
    split at h
    · cases h
    · rename_i hcount
      obtain ⟨u, hu, hstands⟩ := spells_bits (by omega)
        (bitlen_le_iff.mp (Nat.le_of_not_lt hvalue)) past w [] hpast
      rw [hrun] at hu
      cases Except.ok.inj hu
      exact ⟨_, rfl, hstands.2⟩

theorem units_eq_some {rounds n : Nat} {w : RawWriter} {x : Except Fault (Unit × RawWriter)} :
    units rounds n w = some x ↔
      64 ≤ w.k ∧ x = .error .panicked ∨
        w.k < 64 ∧ Unbounded.run (digitRound (2 ^ w.k - 1)) rounds (n, w) = .inr x := by
  unfold units sentinel
  by_cases hk : w.k < 64
  · rw [if_pos hk]
    simp [hk, Nat.not_le.mpr hk]
  · rw [if_neg hk]
    simp [hk, Nat.le_of_not_lt hk, eq_comm]

theorem units_unique {rounds others n : Nat} {w : RawWriter}
    {x y : Except Fault (Unit × RawWriter)} (hx : units rounds n w = some x)
    (hy : units others n w = some y) : x = y := by
  rcases units_eq_some.mp hx with ⟨hk, rfl⟩ | ⟨hk, hrun⟩
  · rcases units_eq_some.mp hy with ⟨-, rfl⟩ | ⟨hlt, -⟩
    · rfl
    · omega
  · rcases units_eq_some.mp hy with ⟨hle, -⟩ | ⟨-, hother⟩
    · omega
    · exact Unbounded.Returns.unique ⟨rounds, hrun⟩ ⟨others, hother⟩

theorem Holds.units {w t : RawWriter} (hw : w.Holds) {rounds n : Nat}
    (h : units rounds n w = some (.ok ((), t))) : t.Holds := by
  rcases units_eq_some.mp h with ⟨-, h⟩ | ⟨-, hrun⟩
  · cases h
  · have hreturns : Unbounded.Returns (digitRound (2 ^ w.k - 1)) (n, w) (.ok ((), t)) :=
      ⟨rounds, hrun⟩
    refine Unbounded.Returns.rule (P := fun s => s.2.Holds)
      (Q := fun x => ∀ t, x = .ok ((), t) → t.Holds) ?_ ?_ hw hreturns t rfl
    · intro s u hs hbody
      unfold digitRound at hbody
      split at hbody
      · split at hbody
        · cases hbody
        · rename_i v hbits
          cases Sum.inl.inj hbody
          exact hs.bits hbits
      · cases hbody
    · intro s x hs hbody u hx
      unfold digitRound at hbody
      split at hbody
      · split at hbody
        · cases Sum.inr.inj hbody
          cases hx
        · cases hbody
      · cases Sum.inr.inj hbody
        exact hs.bits hx

theorem andThen_eq_ok {x : Option (Except Fault (Unit × RawWriter))}
    {rest : Decoder Fault RawWriter Unit} {t : RawWriter} :
    andThen x rest = some (.ok ((), t)) ↔
      ∃ u, x = some (.ok ((), u)) ∧ rest u = .ok ((), t) := by
  constructor
  · intro h
    obtain ⟨written, hwritten, hbind⟩ := Option.map_eq_some_iff.mp h
    obtain ⟨⟨⟨⟩, u⟩, rfl, hrest⟩ := except_bind_eq_ok.mp hbind
    exact ⟨u, hwritten, hrest⟩
  · intro h
    obtain ⟨u, rfl, hrest⟩ := h
    exact congrArg some hrest

theorem Constructed.holds {w : RawWriter} (h : Constructed w) : w.Holds := by
  induction h with
  | new => exact ⟨[], rfl, rfl, rfl⟩
  | default => exact ⟨[], rfl, rfl, rfl⟩
  | assign hw k ih =>
    obtain ⟨past, -, hpast⟩ := ih
    exact ⟨past, rfl, hpast⟩
  | bits hw h ih => exact ih.bits h
  | packed hw h ih =>
    unfold RawWriter.packed at h
    split at h
    · cases h
    · split at h
      · cases h
      · obtain ⟨u, hunits, hbits⟩ := andThen_eq_ok.mp h
        exact (ih.units hunits).bits hbits
  | signedMagnitude hw h ih =>
    unfold RawWriter.signedMagnitude at h
    split at h
    · cases h
    · obtain ⟨u, hunits, hrest⟩ := andThen_eq_ok.mp h
      obtain ⟨⟨⟩, v, hsign, hbits⟩ := Decoder.bind_eq_ok.mp hrest
      exact ((ih.units hunits).bits hsign).bits hbits
  | strictBoundary hw h ih => exact ih.bits h

/-! ## Packed integers -/

/-- Digits of no bits go on for ever. -/
theorem diverges_digitRound (n : Nat) {w : RawWriter} (hk : w.k = 0) :
    Unbounded.Diverges (digitRound 0) (n, w) := by
  refine Unbounded.diverges_of_invariant (P := fun s => s.2.k = 0) ?_ hk
  rintro ⟨units, w⟩ hs
  obtain ⟨t, hbits, ht⟩ : ∃ t, bits 0 0 w = .ok ((), t) ∧ t.k = w.k := ⟨_, rfl, rfl⟩
  refine ⟨(units - 0, t), ?_, ht.trans hs⟩
  have hk : w.k = 0 := hs
  simp only [digitRound, if_pos (Nat.zero_le units), hk, hbits]

theorem units_of_zero (rounds n : Nat) {w : RawWriter} (hk : w.k = 0) :
    units rounds n w = none := by
  obtain ⟨t, ht⟩ := diverges_digitRound n hk rounds
  rw [units, hk]
  show (Unbounded.run (digitRound 0) rounds (n, w)).getRight? = none
  rw [ht]
  rfl

/-- Digits of bits come to an end. -/
theorem returns_digitRound {k : Nat} (hk : 1 ≤ k ∧ k < 64) (n : Nat) (past : List Bool)
    {w : RawWriter} {rest : List Bool} (hw : Stands k w past rest) :
    ∃ t, Unbounded.Returns (digitRound (2 ^ k - 1)) (n, w) (.ok ((), t)) ∧
      Stands k t (past ++ digits k n) rest := by
  have hpow : 2 ^ 1 ≤ 2 ^ k := Nat.pow_le_pow_right (by decide) hk.1
  induction n using Nat.strong_induction_on generalizing past w with
  | _ n ih =>
    by_cases hdigit : 2 ^ k - 1 ≤ n
    · obtain ⟨t, hbits, ht⟩ := spells_bits (by omega) (show 2 ^ k - 1 < 2 ^ k by omega) past w
        rest hw
      obtain ⟨u, hrest, hu⟩ := ih (n - (2 ^ k - 1)) (by omega) _ ht
      have hround : digitRound (2 ^ k - 1) (n, w) = .inl (n - (2 ^ k - 1), t) := by
        simp only [digitRound, if_pos hdigit, hw.1, hbits]
      refine ⟨u, .of_next hround hrest, ?_⟩
      rw [digits_of_le hk.1 hdigit, ← List.append_assoc]
      exact hu
    · obtain ⟨t, hbits, ht⟩ := spells_bits (by omega) (show n < 2 ^ k by omega) past w rest hw
      have hround : digitRound (2 ^ k - 1) (n, w) = .inr (.ok ((), t)) := by
        simp only [digitRound, if_neg hdigit, hw.1, hbits]
      refine ⟨t, .of_stop hround, ?_⟩
      rw [digits_of_lt (Nat.lt_of_not_le hdigit)]
      exact ht

/-- The values that a width takes. -/
def InRange (value : Int) (width : Nat) : Prop := -2 ^ (width - 1) ≤ value ∧ value < 2 ^ width

instance (value : Int) (width : Nat) : Decidable (InRange value width) :=
  inferInstanceAs (Decidable (_ ∧ _))

section

variable {w : RawWriter} {value : Int} {width : Nat}

theorem bound_eq : ∀ width ∈ [8, 16, 32, 64],
    (1 ≤ width ∧ width ≤ 127) ∧ (2 ^ width : Int).bmod (2 ^ 128) = 2 ^ width := by decide

theorem packed_of_not_inRange (hwidth : width ∈ [8, 16, 32, 64]) (h : ¬InRange value width)
    (rounds : Nat) :
    packed rounds value width w = some (.error (.rejected ⟨"integer out of range"⟩)) := by
  obtain ⟨hmem, hbound⟩ := bound_eq width hwidth
  rw [packed, if_neg (not_not_intro hmem), hbound]
  exact if_pos h

theorem packed_of_inRange (hwidth : width ∈ [8, 16, 32, 64]) (h : InRange value width)
    (rounds : Nat) :
    packed rounds value width w =
      andThen (units rounds (groups (value % 2 ^ width).toNat) w)
        (bits (value % 2 ^ width).toNat (2 * groups (value % 2 ^ width).toNat)) := by
  obtain ⟨hmem, hbound⟩ := bound_eq width hwidth
  rw [packed, if_neg (not_not_intro hmem), hbound]
  exact if_neg (not_not_intro h)

theorem two_mul_groups_masked (hwidth : width ∈ [8, 16, 32, 64]) (value : Int) :
    2 * groups (value % 2 ^ width).toNat ≤ width := by
  obtain ⟨-, -, heven⟩ := width_range hwidth
  apply two_mul_groups_le heven
  have hcast : ((2 ^ width : Nat) : Int) = 2 ^ width := by simp
  have hlt := Int.emod_lt_of_pos value (show (0 : Int) < 2 ^ width from Int.pow_pos (by decide))
  have := Nat.two_pow_pos width
  omega

/-- A packed integer behind what the writer holds. -/
theorem exists_packed (hwidth : width ∈ [8, 16, 32, 64]) (h : InRange value width)
    (hk : 1 ≤ w.k ∧ w.k < 64) {past : List Bool} (hw : Stands w.k w past []) :
    ∃ rounds t, packed rounds value width w = some (.ok ((), t)) ∧
      Stands w.k t (past ++ packedBits w.k width value) [] := by
  obtain ⟨u, ⟨rounds, hrun⟩, hu⟩ :=
    returns_digitRound hk (groups (value % 2 ^ width).toNat) past hw
  have hcount := two_mul_groups_masked hwidth value
  obtain ⟨-, hmax, -⟩ := width_range hwidth
  obtain ⟨t, hbits, ht⟩ := spells_bits (by omega) (lt_two_pow_groups (value % 2 ^ width).toNat)
    _ u [] hu
  refine ⟨rounds, t, ?_, ?_⟩
  · rw [packed_of_inRange hwidth h]
    exact andThen_eq_ok.mpr ⟨u, units_eq_some.mpr (.inr ⟨hk.2, hrun⟩), hbits⟩
  · rw [packedBits, ← List.append_assoc]
    exact ht

/-- A writer with a condition on `k`, without it. -/
def ofWriter (w : BitWriter) : RawWriter := ⟨w.data, w.position, w.k⟩

/-- Where the shift is no panic, the condition on `k` changes nothing. -/
theorem packed_ofWriter {b : BitWriter} {past : List Bool} (hb : b.Stands b.k past [])
    (hk : b.k < 64) (hwidth : width ∈ [8, 16, 32, 64]) (h : InRange value width) :
    ∃ rounds t, b.packed value width = .ok ((), t) ∧
      packed rounds value width (ofWriter b) = some (.ok ((), ofWriter t)) := by
  obtain ⟨t, hrun, htk, htposition, htdata⟩ := BitWriter.spells_packed h.1 h.2 past b [] hb
  obtain ⟨rounds, u, hraw, huk, huposition, hudata⟩ :=
    exists_packed hwidth h ⟨b.one_le_k, hk⟩ (w := ofWriter b) ⟨rfl, hb.2.1, hb.2.2⟩
  have hsame : u = ofWriter t :=
    RawWriter.ext (hudata.trans htdata.symm) (huposition.trans htposition.symm)
      (huk.trans htk.symm)
  rw [hsame] at hraw
  exact ⟨rounds, t, hrun, hraw⟩

/-- The reader stands before what was written behind the position of the first writer. -/
theorem stands_reader {t : RawWriter} {past word : List Bool} (hw : Stands w.k w past [])
    (ht : Stands w.k t (past ++ word) []) :
    ∃ rest, BitReader.Stands w.k (reader t w) past (word ++ rest) := by
  obtain ⟨-, hposition, -⟩ := hw
  obtain ⟨-, -, hdata⟩ := ht
  refine ⟨List.replicate (8 * (((past ++ word).length + 7) / 8) - (past ++ word).length) false,
    rfl, hposition, ?_⟩
  show (ofBytes t.data).take (t.data.length * 8) = _
  rw [List.take_of_length_le (by rw [length_ofBytes]; omega), hdata, ofBytes_toBytes,
    List.append_assoc]

/-- The call comes to an end, with an error or with bits that the reader gives back. -/
def Readable (w : RawWriter) (value : Int) (width : Nat) : Prop :=
  ∃ rounds, (∃ e, packed rounds value width w = some (.error (.rejected e))) ∨
    ∃ t, packed rounds value width w = some (.ok ((), t)) ∧
      ∀ signed, ∃ v u, BitReader.packed width signed (reader t w) = .ok (v, u) ∧
        v % 2 ^ width = value % 2 ^ width

theorem packedValue_emod (width : Nat) (signed : Bool) (v : Int) :
    BitReader.packedValue width signed v % 2 ^ width = v % 2 ^ width := by
  have hcast : ((2 ^ width : Nat) : Int) = 2 ^ width := by simp
  unfold BitReader.packedValue
  cases signed with
  | false => exact Int.emod_emod_of_dvd v (dvd_refl _)
  | true =>
    rw [← hcast]
    exact Int.bmod_emod

theorem readable_of_digits (hwidth : width ∈ [8, 16, 32, 64]) (h : InRange value width)
    (hk : 1 ≤ w.k ∧ w.k ≤ 8) (hw : w.Holds) : Readable w value width := by
  obtain ⟨past, hpast⟩ := hw
  obtain ⟨rounds, t, hrun, ht⟩ := exists_packed hwidth h ⟨hk.1, by omega⟩ hpast
  refine ⟨rounds, .inr ⟨t, hrun, ?_⟩⟩
  intro signed
  obtain ⟨rest, hreader⟩ := stands_reader hpast ht
  obtain ⟨u, hread, -⟩ := BitReader.spells_packed hk hwidth signed value past _ rest hreader
  exact ⟨_, u, hread, packedValue_emod width signed value⟩

/-- The reader takes no digits of other lengths. -/
theorem reader_rejects (hk : ¬(1 ≤ w.k ∧ w.k ≤ 8)) (t : RawWriter) (signed : Bool) :
    BitReader.packed width signed (reader t w) = reject "unsupported packed width" := by
  have hlength : BitReader.packedLength width (reader t w) = reject "unsupported packed width" :=
    dif_neg fun h => hk ⟨h.1, h.2.1⟩
  exact Decoder.bind_of_error hlength

theorem not_readable (hwidth : width ∈ [8, 16, 32, 64]) (h : InRange value width)
    (hk : ¬(1 ≤ w.k ∧ w.k ≤ 8)) (hw : w.Holds) : ¬Readable w value width := by
  rintro ⟨rounds, ⟨e, hrun⟩ | ⟨t, hrun, hread⟩⟩
  · rw [packed_of_inRange hwidth h] at hrun
    obtain ⟨x, hunits, hx⟩ := Option.map_eq_some_iff.mp hrun
    by_cases hlarge : 64 ≤ w.k
    · -- The shift is a panic, and so is the call.
      rcases units_eq_some.mp hunits with ⟨-, rfl⟩ | ⟨hlt, -⟩
      · cases hx
      · omega
    · by_cases hzero : w.k = 0
      · rw [units_of_zero rounds _ hzero] at hunits
        cases hunits
      · -- The digits are written, so the call is no error.
        obtain ⟨past, hpast⟩ := hw
        obtain ⟨others, t, hok, -⟩ := exists_packed hwidth h ⟨by omega, by omega⟩ hpast
        rw [packed_of_inRange hwidth h] at hok
        obtain ⟨u, hu, hbits⟩ := andThen_eq_ok.mp hok
        obtain rfl := units_unique hunits hu
        have hbits' : bits (value % 2 ^ width).toNat (2 * groups (value % 2 ^ width).toNat) u =
          .error (.rejected e) := hx
        rw [hbits] at hbits'
        cases hbits'
  · obtain ⟨v, u, hv, -⟩ := hread false
    rw [reader_rejects hk] at hv
    cases hv

end

end RawWriter

open RawWriter

/-- A packed integer is written so that the reader gives it back, or rejected, exactly when
its value is out of range or its digits have from 1 to 8 bits. -/
theorem packed_readable_iff {w : RawWriter} (hw : Constructed w) {width : Nat}
    (hwidth : width ∈ [8, 16, 32, 64]) (value : Int) :
    Readable w value width ↔ ¬InRange value width ∨ 1 ≤ w.k ∧ w.k ≤ 8 := by
  constructor
  · intro h
    by_contra hcondition
    obtain ⟨hrange, hk⟩ := not_or.mp hcondition
    exact not_readable hwidth (not_not.mp hrange) hk hw.holds h
  · intro h
    by_cases hrange : InRange value width
    · exact readable_of_digits hwidth hrange (h.resolve_left (not_not_intro hrange)) hw.holds
    · exact ⟨0, .inl ⟨_, packed_of_not_inRange hwidth hrange 0⟩⟩

theorem packed_readable_iff_new :
    Readable RawWriter.new (-2) 64 ↔ ¬InRange (-2) 64 ∨ 1 ≤ new.k ∧ new.k ≤ 8 :=
  packed_readable_iff .new (by decide) (-2)

/-- A zero in a byte, written with the default writer, does not come to an end. -/
theorem not_readable_default : Constructed RawWriter.default ∧
    (∀ rounds, packed rounds 0 8 RawWriter.default = none) ∧
      ¬Readable RawWriter.default 0 8 := by
  refine ⟨.default, ?_, ?_⟩
  · intro rounds
    rw [packed_of_inRange (by decide) (by decide), units_of_zero rounds _ rfl]
    rfl
  · exact not_readable (by decide) (by decide) (by decide) Constructed.default.holds

end Mt5Open.Native
