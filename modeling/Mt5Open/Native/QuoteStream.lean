import Mt5Open.Native.Market

/-!
# Quote streams

`encodeQuote` writes one record of command 50 or 51.  `liveLayout` and `snapshotLayout`
are the fields of the two formats.  In their terms, `QuoteInput.row` is the row that a
record stands for, and `QuoteInput.Fits` says that each field of the mask has a value in
its storage.

A record ends at a byte, so its bits do not depend on the records before it, and
`quote_stream_round_trip` is about the records of a message in a row.
-/

namespace Mt5Open.Native

open Lib Lib.Bits Lib.Tape

/-- Input to `encode_quote`.  `values` is keyed by bit and covers live fields,
snapshot fields and extensions; `additionalMasks` holds the second reading of the
bits 62 and 63. -/
structure QuoteInput where
  symbolId : Int
  seconds : Int
  mask : Nat
  values : List (Nat × Int)
  additionalMasks : List (Nat × Int)
  mask_lt : mask < 2 ^ 64
  deriving DecidableEq, Repr

namespace QuoteInput

/-- `QuoteInput::value`. -/
def value (input : QuoteInput) (bit : Nat) : Result Int :=
  match input.values.lookup bit with
  | some v => .ok v
  | none => reject s!"missing quote field for bit {bit}"

def additionalMask (input : QuoteInput) (bit : Nat) : Result Int :=
  match input.additionalMasks.lookup bit with
  | some v => .ok v
  | none => reject s!"missing additional mask {bit}"

end QuoteInput

/-- One packed field of the mask after the other. -/
def writeFields {γ : Type} (value : γ → Result Int) (width : γ → Nat) (items : List γ) :
    BitEncoder (List Unit) :=
  Decoder.each (fun item => do
    let v ← Decoder.ofResult (value item)
    BitWriter.packed v (width item)) items

/-- The bits of the mask among these. -/
def QuoteInput.present (input : QuoteInput) (bits : List Nat) : List Nat :=
  bits.filter input.mask.testBit

/-- The live fields of the mask. -/
def QuoteInput.presentLive (input : QuoteInput) : List (Nat × String × Nat × Bool) :=
  LIVE_FIELDS.filter fun field => input.mask.testBit field.1

/-- The writes of `encode_quote`. -/
def writeQuote (input : QuoteInput) (command : UInt8) : BitEncoder Unit := do
  BitWriter.packed input.symbolId 32
  if command = 50 then
    BitWriter.packed input.seconds 64
    BitWriter.packed input.mask 64
    let _ ← writeFields (fun field => input.value field.1) (fun field => field.2.2.1)
      input.presentLive
    let _ ← writeFields input.value (fun _ => 64) (input.present (List.range' 9 55))
    BitWriter.strictBoundary
  else
    BitWriter.packed input.mask 64
    BitWriter.packed input.seconds 64
    let _ ← writeFields input.value (fun _ => 64) (input.present snapshotOrder)
    let _ ← writeFields input.value (fun _ => 64) (input.present (List.range' 41 23))
    let _ ← writeFields input.additionalMask (fun _ => 64) (input.present [62, 63])
    BitWriter.strictBoundary

/-- `encode_quote`. -/
def encodeQuote (input : QuoteInput) (command : UInt8) : Result Bytes :=
  if command ≠ 50 ∧ command ≠ 51 then reject "quote command must be 50 or 51"
  else
    match writeQuote input command .new with
    | .error e => .error e
    | .ok (_, w) => .ok w.data

/-! ## The row of a record -/

/-- The fields of a live tick in the order of the wire: the bit, the name, the width and
whether there is a sign. -/
def liveLayout : List (Nat × String × Nat × Bool) :=
  [(0, "bid_integer", 64, true), (1, "ask_integer", 64, true), (2, "last_integer", 64, true),
    (3, "whole_volume", 64, false), (4, "opaque_4", 64, true), (5, "opaque_5", 16, true),
    (6, "millisecond_component", 64, true), (7, "opaque_7", 64, true),
    (8, "fractional_volume", 64, false)]

/-- The 41 fields of a snapshot in the order of the wire: the bit, and whether there is a
sign.  Field 27 stands before field 26. -/
def snapshotLayout : List (Nat × Bool) :=
  [(0, true), (1, true), (2, true), (3, true), (4, true), (5, true), (6, true), (7, true),
    (8, true), (9, false), (10, false), (11, false), (12, false), (13, false), (14, false),
    (15, false), (16, true), (17, false), (18, true), (19, true), (20, true), (21, true),
    (22, true), (23, true), (24, true), (25, true), (27, true), (26, true), (28, true),
    (29, true), (30, true), (31, true), (32, true), (33, true), (34, true), (35, true),
    (36, true), (37, true), (38, true), (39, true), (40, true)]

/-- The bits of the snapshot fields. -/
def snapshotBits : List Nat := snapshotLayout.map Prod.fst

namespace QuoteInput

/-- The value of a field that is there. -/
def valueAt (input : QuoteInput) (bit : Nat) : Int := (input.values.lookup bit).getD 0

def additionalAt (input : QuoteInput) (bit : Nat) : Int :=
  (input.additionalMasks.lookup bit).getD 0

/-- The value of a field, 0 for one that the mask leaves out. -/
def orZero (input : QuoteInput) (bit : Nat) : Int :=
  if input.mask.testBit bit then input.valueAt bit else 0

/-- A table has a value for each of these bits, in the storage of the field. -/
def Holds (table : List (Nat × Int)) (bit width : Nat) (signed : Bool) : Prop :=
  ∃ v, table.lookup bit = some v ∧ InStorage width signed v

theorem holds_iff {table : List (Nat × Int)} {bit width : Nat} {signed : Bool} :
    (match table.lookup bit with
      | some v => InStorage width signed v
      | none => False) ↔ Holds table bit width signed := by
  unfold Holds
  cases table.lookup bit <;> simp

instance (table : List (Nat × Int)) (bit width : Nat) (signed : Bool) :
    Decidable (Holds table bit width signed) :=
  have : Decidable (match table.lookup bit with
      | some v => InStorage width signed v
      | none => False) := by
    cases table.lookup bit <;> infer_instance
  decidable_of_iff _ holds_iff

/-- Each field of the mask has a value in its storage. -/
structure Fits (input : QuoteInput) (command : UInt8) : Prop where
  symbolId : InStorage 32 true input.symbolId
  seconds : InStorage 64 true input.seconds
  live : command = 50 → ∀ field ∈ liveLayout, input.mask.testBit field.1 →
    Holds input.values field.1 field.2.2.1 field.2.2.2
  extensions : command = 50 → ∀ bit < 64, 9 ≤ bit → input.mask.testBit bit →
    Holds input.values bit 64 false
  snapshot : command = 51 → ∀ field ∈ snapshotLayout, input.mask.testBit field.1 →
    Holds input.values field.1 64 field.2
  snapshotExtensions : command = 51 → ∀ bit < 64, 41 ≤ bit → input.mask.testBit bit →
    Holds input.values bit 64 false
  additional : command = 51 → ∀ bit ∈ [62, 63], input.mask.testBit bit →
    Holds input.additionalMasks bit 64 false

/-- The bits of a list of fields. -/
def fieldBits {γ : Type} (value : γ → Int) (width : γ → Nat) (items : List γ) : List Bool :=
  items.flatMap fun item => packedBits 2 (width item) (value item)

/-- The bits of a record, up to the boundary. -/
def bits (input : QuoteInput) (command : UInt8) : List Bool :=
  packedBits 2 32 input.symbolId ++
    if command = 50 then
      packedBits 2 64 input.seconds ++ (packedBits 2 64 input.mask ++
        (fieldBits (fun field => input.valueAt field.1) (fun field => field.2.2.1)
            (liveLayout.filter fun field => input.mask.testBit field.1) ++
          fieldBits input.valueAt (fun _ => 64) ((List.range' 9 55).filter input.mask.testBit)))
    else
      packedBits 2 64 input.mask ++ (packedBits 2 64 input.seconds ++
        (fieldBits input.valueAt (fun _ => 64) (snapshotBits.filter input.mask.testBit) ++
          (fieldBits input.valueAt (fun _ => 64) ((List.range' 41 23).filter input.mask.testBit) ++
            fieldBits input.additionalAt (fun _ => 64) ([62, 63].filter input.mask.testBit))))

/-- The fields of the mask among these bits, each with its own value. -/
def fields (input : QuoteInput) (value : Nat → Int) (bits : List Nat) : List (Nat × Int) :=
  (bits.filter input.mask.testBit).map fun bit => (bit, value bit)

/-- The row that a record stands for. -/
def row (input : QuoteInput) (command : UInt8) : QuoteRow where
  command := command
  symbolId := input.symbolId
  seconds := input.seconds
  mask := input.mask
  live :=
    if command = 50 then
      (liveLayout.filter fun field => input.mask.testBit field.1).map fun field =>
        (field.2.1, input.valueAt field.1)
    else []
  timeMs :=
    if command = 50 then some ((input.seconds * 1000 + input.orZero 6).bmod (2 ^ 64)) else none
  volumeUnits :=
    if command = 50 ∧ (input.mask.testBit 3 ∨ input.mask.testBit 8) then
      some ((input.orZero 3 * 10 ^ 8 + input.orZero 8) % 2 ^ 64)
    else none
  fields := if command = 50 then [] else input.fields input.valueAt snapshotBits
  compatibilityTimeMs :=
    if command = 50 then none
    else some (if input.mask.testBit 26 then (input.seconds * 1000).bmod (2 ^ 64) else 0)
  extensions :=
    input.fields input.valueAt (if command = 50 then List.range' 9 55 else List.range' 41 23)
  additionalMasks :=
    if command = 50 then none else some (input.fields input.additionalAt [62, 63])
  bitsBeforePadding := (input.bits command).length
  paddingCount := 8 - (input.bits command).length % 8
  paddingValue := 0

end QuoteInput

/-! ## One record -/

namespace QuoteInput

theorem Holds.value_eq {input : QuoteInput} {bit width : Nat} {signed : Bool}
    (h : Holds input.values bit width signed) : input.value bit = .ok (input.valueAt bit) := by
  obtain ⟨v, hv, -⟩ := h
  simp [value, valueAt, hv]

theorem Holds.additionalMask_eq {input : QuoteInput} {bit width : Nat} {signed : Bool}
    (h : Holds input.additionalMasks bit width signed) :
    input.additionalMask bit = .ok (input.additionalAt bit) := by
  obtain ⟨v, hv, -⟩ := h
  simp [additionalMask, additionalAt, hv]

theorem Holds.inStorage {input : QuoteInput} {bit width : Nat} {signed : Bool}
    (h : Holds input.values bit width signed) :
    InStorage width signed (input.valueAt bit) := by
  obtain ⟨v, hv, hstorage⟩ := h
  rw [valueAt, hv]
  exact hstorage

theorem Holds.additional_inStorage {input : QuoteInput} {bit width : Nat} {signed : Bool}
    (h : Holds input.additionalMasks bit width signed) :
    InStorage width signed (input.additionalAt bit) := by
  obtain ⟨v, hv, hstorage⟩ := h
  rw [additionalAt, hv]
  exact hstorage

/-! The tables of the code are those of the formats. -/

theorem presentLive_eq (input : QuoteInput) :
    input.presentLive = liveLayout.filter fun field => input.mask.testBit field.1 := rfl

theorem snapshotOrder_eq : snapshotOrder = snapshotBits := by decide

theorem bits_live (input : QuoteInput) :
    input.bits 50 = packedBits 2 32 input.symbolId ++ (packedBits 2 64 input.seconds ++
      (packedBits 2 64 input.mask ++
        (fieldBits (fun field => input.valueAt field.1) (fun field => field.2.2.1)
            input.presentLive ++
          fieldBits input.valueAt (fun _ => 64) (input.present (List.range' 9 55))))) := rfl

theorem bits_snapshot (input : QuoteInput) :
    input.bits 51 = packedBits 2 32 input.symbolId ++ (packedBits 2 64 input.mask ++
      (packedBits 2 64 input.seconds ++
        (fieldBits input.valueAt (fun _ => 64) (input.present snapshotOrder) ++
          (fieldBits input.valueAt (fun _ => 64) (input.present (List.range' 41 23)) ++
            fieldBits input.additionalAt (fun _ => 64) (input.present [62, 63]))))) := by
  rw [snapshotOrder_eq]
  rfl

theorem signed_of_mem_snapshot {field : Nat × Bool} (h : field ∈ snapshotLayout) :
    field.2 = !snapshotUnsigned field.1 := by
  have hall : ∀ field ∈ snapshotLayout, field.2 = !snapshotUnsigned field.1 := by decide
  exact hall field h

theorem Fits.holds_live {input : QuoteInput} (h : input.Fits 50)
    {field : Nat × String × Nat × Bool} (hfield : field ∈ input.presentLive) :
    Holds input.values field.1 field.2.2.1 field.2.2.2 := by
  obtain ⟨hmem, hbit⟩ := List.mem_filter.mp hfield
  exact h.live rfl field hmem hbit

theorem Fits.holds_extension {input : QuoteInput} (h : input.Fits 50) {bit : Nat}
    (hbit : bit ∈ input.present (List.range' 9 55)) : Holds input.values bit 64 false := by
  obtain ⟨hmem, hbit⟩ := List.mem_filter.mp hbit
  rw [List.mem_range'_1] at hmem
  exact h.extensions rfl bit hmem.2 hmem.1 hbit

theorem Fits.holds_snapshot {input : QuoteInput} (h : input.Fits 51) {bit : Nat}
    (hbit : bit ∈ input.present snapshotOrder) :
    Holds input.values bit 64 (!snapshotUnsigned bit) := by
  obtain ⟨hmem, hbit⟩ := List.mem_filter.mp hbit
  rw [snapshotOrder_eq] at hmem
  obtain ⟨field, hfield, rfl⟩ := List.mem_map.mp hmem
  rw [← signed_of_mem_snapshot hfield]
  exact h.snapshot rfl field hfield hbit

theorem Fits.holds_snapshotExtension {input : QuoteInput} (h : input.Fits 51) {bit : Nat}
    (hbit : bit ∈ input.present (List.range' 41 23)) : Holds input.values bit 64 false := by
  obtain ⟨hmem, hbit⟩ := List.mem_filter.mp hbit
  rw [List.mem_range'_1] at hmem
  exact h.snapshotExtensions rfl bit hmem.2 hmem.1 hbit

theorem Fits.holds_additional {input : QuoteInput} (h : input.Fits 51) {bit : Nat}
    (hbit : bit ∈ input.present [62, 63]) : Holds input.additionalMasks bit 64 false := by
  obtain ⟨hmem, hbit⟩ := List.mem_filter.mp hbit
  exact h.additional rfl bit hmem hbit

theorem width_of_mem_live {input : QuoteInput} {field : Nat × String × Nat × Bool}
    (h : field ∈ input.presentLive) : field.2.2.1 ∈ [8, 16, 32, 64] := by
  have hall : ∀ field ∈ LIVE_FIELDS, field.2.2.1 ∈ [8, 16, 32, 64] := by decide
  exact hall field (List.mem_of_mem_filter h)

end QuoteInput

section Fields

variable {γ β : Type} {items : List γ} {result : γ → Result Int} {value : γ → Int}
  {width : γ → Nat} {signed : γ → Bool}

theorem spells_writeFields (hresult : ∀ item ∈ items, result item = .ok (value item))
    (hwidth : ∀ item ∈ items, width item ∈ [8, 16, 32, 64])
    (hstorage : ∀ item ∈ items, InStorage (width item) (signed item) (value item))
    (past : List Bool) :
    Spells (BitWriter.Stands 2) (writeFields result width items) past
      (QuoteInput.fieldBits value width items) (items.map fun _ => ()) := by
  refine Spells.each_const past fun past item hitem => ?_
  rw [hresult item hitem]
  exact (hstorage item hitem).spells_write (hwidth item hitem) past

theorem spells_readFields (g : γ → Int → β)
    (hwidth : ∀ item ∈ items, width item ∈ [8, 16, 32, 64])
    (hstorage : ∀ item ∈ items, InStorage (width item) (signed item) (value item))
    (past : List Bool) :
    Spells (BitReader.Stands 2)
      (Decoder.each (fun item => do
        let v ← BitReader.packed (width item) (signed item)
        return g item v) items) past
      (QuoteInput.fieldBits value width items) (items.map fun item => g item (value item)) := by
  refine Spells.each_const past fun past item hitem => ?_
  exact ((hstorage item hitem).spells_read (by decide) (hwidth item hitem) past).map (g item)

end Fields

namespace QuoteInput

variable {input : QuoteInput} {command : UInt8}

theorem spells_maskedFields {value : Nat → Int} {bits : List Nat} {signed : Nat → Bool}
    (hstorage : ∀ bit ∈ input.present bits, InStorage 64 (signed bit) (value bit))
    (past : List Bool) :
    Spells (BitReader.Stands 2) (maskedFields input.mask bits signed) past
      (fieldBits value (fun _ => 64) (input.present bits)) (input.fields value bits) :=
  spells_readFields (fun bit v => (bit, v)) (fun _ _ => by decide) hstorage past

theorem spells_mask_write (past : List Bool) :
    Spells (BitWriter.Stands 2) (BitWriter.packed input.mask 64) past
      (packedBits 2 64 input.mask) () := by
  have hmask := input.mask_lt
  exact BitWriter.spells_packed (by omega) (by omega) past

/-- The writes of a record. -/
theorem spells_writeQuote (h : input.Fits command) (hcommand : command = 50 ∨ command = 51)
    (past : List Bool) :
    Spells (BitWriter.Stands 2) (writeQuote input command) past
      (input.bits command ++ boundaryBits (past ++ input.bits command)) () := by
  have hsymbol := h.symbolId.spells_write (k := 2) (by decide) past
  obtain rfl | rfl := hcommand
  · unfold writeQuote
    rw [bits_live]
    simp only [if_true, List.append_assoc]
    refine hsymbol.bind ((h.seconds.spells_write (by decide) _).bind
      ((spells_mask_write _).bind ?_))
    refine (spells_writeFields (fun field hfield => (h.holds_live hfield).value_eq)
      (fun field hfield => width_of_mem_live hfield)
      (fun field hfield => (h.holds_live hfield).inStorage) _).bind ?_
    refine (spells_writeFields (fun bit hbit => (h.holds_extension hbit).value_eq)
      (fun _ _ => by decide) (fun bit hbit => (h.holds_extension hbit).inStorage) _).bind ?_
    simpa only [List.append_assoc] using BitWriter.spells_strictBoundary _
  · unfold writeQuote
    rw [bits_snapshot, if_neg (by decide), List.append_assoc]
    refine hsymbol.bind ?_
    simp only [List.append_assoc]
    refine (spells_mask_write _).bind ((h.seconds.spells_write (by decide) _).bind ?_)
    refine (spells_writeFields (fun bit hbit => (h.holds_snapshot hbit).value_eq)
      (fun _ _ => by decide) (fun bit hbit => (h.holds_snapshot hbit).inStorage) _).bind ?_
    refine (spells_writeFields (fun bit hbit => (h.holds_snapshotExtension hbit).value_eq)
      (fun _ _ => by decide)
      (fun bit hbit => (h.holds_snapshotExtension hbit).inStorage) _).bind ?_
    refine (spells_writeFields (fun bit hbit => (h.holds_additional hbit).additionalMask_eq)
      (fun _ _ => by decide)
      (fun bit hbit => (h.holds_additional hbit).additional_inStorage) _).bind ?_
    simpa only [List.append_assoc] using BitWriter.spells_strictBoundary _

theorem wrapI64_eq (x : Int) : wrapI64 x = x.bmod (2 ^ 64) := by
  unfold wrapI64 Int.bmod
  simp only [Nat.reducePow, Int.reducePow]
  split <;> omega

/-- Each name stands for one field. -/
theorem lookup_present (p : Nat × String × Nat × Bool → Bool) (value : Nat → Int)
    {fields : List (Nat × String × Nat × Bool)} (hnodup : (fields.map (·.2.1)).Nodup)
    {field : Nat × String × Nat × Bool} (hfield : field ∈ fields) :
    ((fields.filter p).map fun f => (f.2.1, value f.1)).lookup field.2.1 =
      if p field then some (value field.1) else none := by
  induction fields with
  | nil => cases hfield
  | cons f fields ih =>
    obtain ⟨hother, hnodup⟩ := List.nodup_cons.mp hnodup
    have hne : ∀ g ∈ fields, g.2.1 ≠ f.2.1 := fun g hg heq =>
      hother (List.mem_map.mpr ⟨g, hg, heq⟩)
    rw [List.filter_cons]
    obtain rfl | hfield := List.mem_cons.mp hfield
    · by_cases hp : p field
      · simp [hp]
      · have hnone : ((fields.filter p).map fun f => (f.2.1, value f.1)).lookup field.2.1 =
            none := by
          rw [List.lookup_eq_none_iff]
          rintro pair hpair
          obtain ⟨g, hg, rfl⟩ := List.mem_map.mp hpair
          simpa using (hne g (List.mem_of_mem_filter hg)).symm
        simp [hp, hnone]
    · have hfirst : (field.2.1 == f.2.1) = false := by simpa using hne field hfield
      by_cases hp : p f
      · rw [if_pos hp, List.map_cons, List.lookup_cons, hfirst]
        exact ih hnodup hfield
      · rw [if_neg hp]
        exact ih hnodup hfield

/-- A live field that the mask leaves out counts as zero. -/
theorem lookup_live (input : QuoteInput) {bit width : Nat} {name : String} {signed : Bool}
    (hfield : (bit, name, width, signed) ∈ LIVE_FIELDS) :
    ((input.presentLive.map fun field => (field.2.1, input.valueAt field.1)).lookup name).getD 0 =
      input.orZero bit := by
  have hlookup := lookup_present (fun field => input.mask.testBit field.1) input.valueAt
    (by decide) hfield
  rw [presentLive, hlookup, orZero]
  split
  · rfl
  · rfl

theorem spells_liveRow {start : Nat} (h : input.Fits 50) (past : List Bool)
    (hstart : past.length = start + (packedBits 2 32 input.symbolId).length) :
    Spells (BitReader.Stands 2) (liveRow start input.symbolId) past
      (packedBits 2 64 input.seconds ++ (packedBits 2 64 input.mask ++
        (fieldBits (fun field => input.valueAt field.1) (fun field => field.2.2.1)
            input.presentLive ++
          fieldBits input.valueAt (fun _ => 64) (input.present (List.range' 9 55)))))
      { input.row 50 with paddingCount := 0, paddingValue := 0 } := by
  unfold liveRow
  refine (h.seconds.spells_read (by decide) (by decide) _).bind ?_
  refine (InStorage.spells_readNat (by decide) (by decide) input.mask_lt _).bind ?_
  refine (spells_readFields (fun field v => (field.2.1, v))
    (fun field hfield => width_of_mem_live hfield)
    (fun field hfield => (h.holds_live hfield).inStorage) _).bind ?_
  refine (spells_maskedFields (fun bit hbit => (h.holds_extension hbit).inStorage) _).bind_nil ?_
  refine Spells.get fun r rest hr => Spells.pure_of_eq _ ?_
  have hms := lookup_live input (show (6, "millisecond_component", 64, true) ∈ _ by decide)
  have hwhole := lookup_live input (show (3, "whole_volume", 64, false) ∈ _ by decide)
  have hfrac := lookup_live input (show (8, "fractional_volume", 64, false) ∈ _ by decide)
  rw [hr.2.1, hms, hwhole, hfrac, wrapI64_eq]
  simp only [row, bits_live, ← presentLive_eq, fields, if_true, List.length_append, true_and,
    and_true, QuoteRow.mk.injEq, Int.reducePow]
  omega

theorem spells_snapshotRow {start : Nat} (h : input.Fits 51) (past : List Bool)
    (hstart : past.length = start + (packedBits 2 32 input.symbolId).length) :
    Spells (BitReader.Stands 2) (snapshotRow start input.symbolId) past
      (packedBits 2 64 input.mask ++ (packedBits 2 64 input.seconds ++
        (fieldBits input.valueAt (fun _ => 64) (input.present snapshotOrder) ++
          (fieldBits input.valueAt (fun _ => 64) (input.present (List.range' 41 23)) ++
            fieldBits input.additionalAt (fun _ => 64) (input.present [62, 63])))))
      { input.row 51 with paddingCount := 0, paddingValue := 0 } := by
  unfold snapshotRow
  refine (InStorage.spells_readNat (by decide) (by decide) input.mask_lt _).bind ?_
  refine (h.seconds.spells_read (by decide) (by decide) _).bind ?_
  refine (spells_maskedFields (fun bit hbit => (h.holds_snapshot hbit).inStorage) _).bind ?_
  refine (spells_maskedFields
    (fun bit hbit => (h.holds_snapshotExtension hbit).inStorage) _).bind ?_
  refine (spells_maskedFields
    (fun bit hbit => (h.holds_additional hbit).additional_inStorage) _).bind_nil ?_
  refine Spells.get fun r rest hr => Spells.pure_of_eq _ ?_
  rw [hr.2.1, wrapI64_eq]
  have hcommand : (51 : UInt8) ≠ 50 := by decide
  simp only [row, bits_snapshot, snapshotOrder_eq, fields, hcommand, if_false, false_and,
    List.length_append, true_and, and_true, QuoteRow.mk.injEq]
  omega

/-- The bits of a record. -/
def recordBits (input : QuoteInput) (command : UInt8) : List Bool :=
  input.bits command ++ boundaryBits (input.bits command)

/-- The boundary of a record that starts at a byte is its own. -/
theorem boundaryBits_append {past word : List Bool} (h : 8 ∣ past.length) :
    boundaryBits (past ++ word) = boundaryBits word := by
  obtain ⟨n, hn⟩ := h
  unfold boundaryBits
  rw [List.length_append, hn, Nat.mul_add_div (by decide)]
  congr 1
  omega

theorem length_boundaryBits (past : List Bool) :
    (boundaryBits past).length = 8 - past.length % 8 := by
  rw [boundaryBits, length_field]
  omega

theorem dvd_length_recordBits (input : QuoteInput) (command : UInt8) :
    8 ∣ (input.recordBits command).length := by
  rw [recordBits, List.length_append, length_boundaryBits]
  omega

theorem spells_quoteFields (h : input.Fits command) (hcommand : command = 50 ∨ command = 51)
    (past : List Bool) :
    Spells (BitReader.Stands 2) (quoteFields command) past (input.bits command)
      { input.row command with paddingCount := 0, paddingValue := 0 } := by
  have hsymbol := h.symbolId.spells_read (k := 2) (by decide) (by decide) past
  unfold quoteFields
  refine Spells.get fun r rest hr => ?_
  obtain rfl | rfl := hcommand
  · exact hsymbol.bind (spells_liveRow h _ (by rw [List.length_append, hr.2.1]))
  · exact hsymbol.bind (spells_snapshotRow h _ (by rw [List.length_append, hr.2.1]))

/-- The decoder reads a record to its row. -/
theorem spells_quoteRow (h : input.Fits command) (hcommand : command = 50 ∨ command = 51)
    {past : List Bool} (hpast : 8 ∣ past.length) :
    Spells (BitReader.Stands 2) (quoteRow command) past (input.recordBits command)
      (input.row command) := by
  have hboundary := BitReader.spells_strictBoundary (k := 2) (past ++ input.bits command)
  rw [boundaryBits_append hpast, length_boundaryBits] at hboundary
  exact (spells_quoteFields h hcommand past).bind (hboundary.map fun padding =>
    { input.row command with paddingCount := padding.1, paddingValue := padding.2 })

theorem encodeQuote_eq (h : input.Fits command) (hcommand : command = 50 ∨ command = 51) :
    encodeQuote input command = .ok (toBytes (input.recordBits command)) := by
  obtain ⟨w, hwrite, -, -, hdata⟩ :=
    spells_writeQuote h hcommand [] .new [] (BitWriter.stands_withDigits (by decide) _)
  have hcheck : ¬(command ≠ 50 ∧ command ≠ 51) := by
    rcases hcommand with rfl | rfl <;> decide
  unfold encodeQuote
  rw [if_neg hcheck, hwrite]
  simp only [hdata, List.nil_append]
  rfl

theorem mem_snapshotBits {bit : Nat} : bit ∈ snapshotBits ↔ bit < 41 := by
  have hbelow : ∀ bit ∈ snapshotBits, bit < 41 := by decide
  have hall : ∀ bit < 41, bit ∈ snapshotBits := by decide
  exact ⟨hbelow bit, hall bit⟩

/-- The row of a snapshot has each field of the mask under its own bit, and no other one. -/
theorem fieldGet_row (input : QuoteInput) (bit : Nat) :
    (input.row 51).fieldGet bit =
      if bit < 41 ∧ input.mask.testBit bit then some (input.valueAt bit) else none := by
  show (input.fields input.valueAt snapshotBits).lookup bit = _
  by_cases hbit : bit ∈ snapshotBits.filter input.mask.testBit
  · rw [fields, List.lookup_graph _ hbit]
    rw [List.mem_filter, mem_snapshotBits] at hbit
    exact (if_pos hbit).symm
  · have hnone : (input.fields input.valueAt snapshotBits).lookup bit = none := by
      rw [List.lookup_eq_none_iff]
      intro pair hpair
      obtain ⟨other, hother, rfl⟩ := List.mem_map.mp hpair
      have hne : bit ≠ other := by
        rintro rfl
        exact hbit hother
      exact bne_iff_ne.mpr hne
    rw [List.mem_filter, mem_snapshotBits] at hbit
    rw [hnone, if_neg hbit]

/-- The row of a tick has each field of the mask under its own name, and no other one. -/
theorem liveGet_row (input : QuoteInput) {field : Nat × String × Nat × Bool}
    (hfield : field ∈ liveLayout) :
    (input.row 50).liveGet field.2.1 =
      if input.mask.testBit field.1 then some (input.valueAt field.1) else none :=
  lookup_present (fun field => input.mask.testBit field.1) input.valueAt (by decide) hfield

end QuoteInput

/-! ## The records of a message -/

open QuoteInput

variable {command : UInt8}

/-- The loop reads the records that are left, and nothing else. -/
theorem quoteLoop_run (hcommand : command = 50 ∨ command = 51) {inputs : List QuoteInput}
    (h : ∀ input ∈ inputs, input.Fits command) {past : List Bool} (hpast : 8 ∣ past.length)
    {r : BitReader} (hr : r.Stands 2 past (inputs.flatMap fun input => input.recordBits command))
    (rows : List QuoteRow) :
    (quoteLoop command).run (rows, r) =
      .ok (rows ++ inputs.map fun input => input.row command) := by
  induction inputs generalizing past r rows with
  | nil =>
    have hlimit := hr.limit_eq
    have hposition := hr.2.1
    have hround : (quoteLoop command).body (rows, r) = .inr (.ok rows) :=
      if_neg (by simp only [List.flatMap_nil, List.length_nil] at hlimit; omega)
    rw [Loop.run_of_stop _ hround, List.map_nil, List.append_nil]
  | cons input inputs ih =>
    rw [List.flatMap_cons] at hr
    obtain ⟨t, hrow, ht⟩ :=
      spells_quoteRow (h input List.mem_cons_self) hcommand hpast r _ hr
    have hposition : r.position < r.limit := by
      have hlimit := hr.limit_eq
      rw [List.length_append, recordBits, List.length_append, length_boundaryBits] at hlimit
      rw [hr.2.1]
      omega
    have hround : (quoteLoop command).body (rows, r) = .inl (rows ++ [input.row command], t) := by
      simp only [quoteLoop, if_pos hposition, hrow]
    have haligned : 8 ∣ (past ++ input.recordBits command).length := by
      rw [List.length_append]
      exact Nat.dvd_add hpast (dvd_length_recordBits input command)
    rw [Loop.run_of_next _ hround, ih (fun i hi => h i (List.mem_cons_of_mem _ hi)) haligned ht,
      List.map_cons, List.append_assoc]
    rfl

/-- The records of a message are read back, one row for each in their order, to the
last bit, and a row has each field of its mask under its own name or bit. -/
theorem quote_stream_round_trip {command : UInt8} (hcommand : command = 50 ∨ command = 51)
    (inputs : List QuoteInput) (h : ∀ input ∈ inputs, input.Fits command) :
    ∃ chunks, inputs.mapM (fun input => encodeQuote input command) = .ok chunks ∧
      decodeQuotes chunks.flatten command = .ok (inputs.map fun input => input.row command) ∧
      (inputs.map fun input =>
        (input.row command).bitsBeforePadding + (input.row command).paddingCount).sum =
          8 * chunks.flatten.length ∧
      ∀ input ∈ inputs,
        (command = 50 → ∀ field ∈ liveLayout, (input.row command).liveGet field.2.1 =
          if input.mask.testBit field.1 then some (input.valueAt field.1) else none) ∧
        (command = 51 → ∀ bit, (input.row command).fieldGet bit =
          if bit < 41 ∧ input.mask.testBit bit then some (input.valueAt bit) else none) := by
  have hchunks := mapM_ok (fun input hinput => encodeQuote_eq (h input hinput) hcommand)
  have hbits : ofBytes (inputs.map fun input => toBytes (input.recordBits command)).flatten =
      inputs.flatMap fun input => input.recordBits command := by
    rw [ofBytes_flatten, List.flatMap_map]
    exact List.flatMap_congr fun input _ =>
      ofBytes_toBytes_of_dvd (dvd_length_recordBits input command)
  refine ⟨_, hchunks, ?_, ?_, fun input _ => ⟨?_, ?_⟩⟩
  · have hcheck : ¬(command ≠ 50 ∧ command ≠ 51) := by
      rcases hcommand with rfl | rfl <;> decide
    have hstands := BitReader.stands_new
      (inputs.map fun input => toBytes (input.recordBits command)).flatten
    rw [hbits] at hstands
    rw [decodeQuotes, if_neg hcheck, quoteLoop_run hcommand h (by decide) hstands []]
    rfl
  · rw [← length_ofBytes, hbits, List.length_flatMap]
    congr 1
    refine List.map_congr_left fun input _ => ?_
    rw [recordBits, List.length_append, length_boundaryBits]
    rfl
  · rintro rfl field hfield
    exact liveGet_row input hfield
  · rintro rfl bit
    exact fieldGet_row input bit

/-- A tick with a price, split volume, milliseconds and an extension. -/
def sampleQuote : QuoteInput where
  symbolId := -7
  seconds := 1700000000
  mask := 2 ^ 0 + 2 ^ 3 + 2 ^ 5 + 2 ^ 6 + 2 ^ 8 + 2 ^ 63
  values := [(0, -123450), (3, 2), (5, -32768), (6, 987), (8, 123), (63, 2 ^ 64 - 1)]
  additionalMasks := []
  mask_lt := by decide

/-- A snapshot with two signed fields, an unsigned one, the fields 26 and 27 and both readings of
the bits 62 and 63. -/
def sampleSnapshot : QuoteInput where
  symbolId := 12
  seconds := 1700000000
  mask := 2 ^ 0 + 2 ^ 9 + 2 ^ 26 + 2 ^ 27 + 2 ^ 62 + 2 ^ 63
  values := [(0, -5), (9, 2 ^ 64 - 1), (26, 3), (27, -(2 ^ 63)), (62, 7), (63, 2 ^ 64 - 1)]
  additionalMasks := [(62, 2 ^ 63), (63, 1)]
  mask_lt := by decide

theorem quote_stream_round_trip_sample :
    (∃ chunks, [sampleQuote, sampleQuote].mapM (fun input => encodeQuote input 50) = .ok chunks ∧
      decodeQuotes chunks.flatten 50 = .ok [sampleQuote.row 50, sampleQuote.row 50]) ∧
    (∃ chunks, [sampleSnapshot, sampleSnapshot].mapM (fun input => encodeQuote input 51) =
        .ok chunks ∧
      decodeQuotes chunks.flatten 51 = .ok [sampleSnapshot.row 51, sampleSnapshot.row 51]) ∧
    (sampleSnapshot.row 51).fields = [(0, -5), (9, 2 ^ 64 - 1), (27, -(2 ^ 63)), (26, 3)] ∧
    (sampleSnapshot.row 51).extensions = [(62, 7), (63, 2 ^ 64 - 1)] ∧
    (sampleSnapshot.row 51).additionalMasks = some [(62, 2 ^ 63), (63, 1)] := by
  have htick : sampleQuote.Fits 50 :=
    ⟨by decide, by decide, fun _ => by decide, fun _ => by decide, nofun, nofun, nofun⟩
  have hsnapshot : sampleSnapshot.Fits 51 :=
    ⟨by decide, by decide, nofun, nofun, fun _ => by decide, fun _ => by decide,
      fun _ => by decide⟩
  obtain ⟨ticks, hticks, hread, -⟩ := quote_stream_round_trip (.inl rfl)
    [sampleQuote, sampleQuote] fun input hinput => by
      rcases List.mem_pair.mp hinput with rfl | rfl
      · exact htick
      · exact htick
  obtain ⟨snapshots, hsnapshots, hreads, -⟩ := quote_stream_round_trip (.inr rfl)
    [sampleSnapshot, sampleSnapshot] fun input hinput => by
      rcases List.mem_pair.mp hinput with rfl | rfl
      · exact hsnapshot
      · exact hsnapshot
  exact ⟨⟨ticks, hticks, hread⟩, ⟨snapshots, hsnapshots, hreads⟩, by decide, by decide, by decide⟩

end Mt5Open.Native
