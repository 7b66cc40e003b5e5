import Mt5Open.Native.Bitpack

/-!
# Quotes and depth

Quotes and depth records are packed bit by bit.  The readers go forwards only, and
each quote and each depth record takes bits, so the loops over the records end.
-/

namespace Mt5Open.Native

open Lib

/-! ## Subscription bodies -/

/-- Quote subscription body: a `0x09` selector, an i32 count, then i32 symbol ids. -/
def makeSubscriptionPayload (symbolIds : List Int) : Bytes :=
  0x09 :: (LittleEndian.encode 4 symbolIds.length ++ symbolIds.flatMap (LittleEndian.encodeInt 4))

/-- Depth subscription body: a u32 count, then u32 symbol ids. -/
def makeDepthSubscriptionPayload (symbolIds : List Nat) : Bytes :=
  LittleEndian.encode 4 symbolIds.length ++ symbolIds.flatMap (LittleEndian.encode 4)

/-! ## Quotes -/

open BitReader

/-- Live-tick fields: bit, name, storage width, signed. -/
def LIVE_FIELDS : List (Nat × String × Nat × Bool) :=
  [(0, "bid_integer", 64, true),
    (1, "ask_integer", 64, true),
    (2, "last_integer", 64, true),
    (3, "whole_volume", 64, false),
    (4, "opaque_4", 64, true),
    (5, "opaque_5", 16, true),
    (6, "millisecond_component", 64, true),
    (7, "opaque_7", 64, true),
    (8, "fractional_volume", 64, false)]

/-- Snapshot field read order: 0..=25, then 27, then 26, then 28..=40. -/
def snapshotOrder : List Nat := List.range 26 ++ [27, 26] ++ List.range' 28 13

def snapshotUnsigned (bit : Nat) : Bool := (9 ≤ bit && bit ≤ 15) || bit == 17

/-- `wrap_i64`. -/
def wrapI64 (x : Int) : Int := (x + 2 ^ 63) % 2 ^ 64 - 2 ^ 63

/-- One decoded quote record. Field presence follows the command and mask. -/
structure QuoteRow where
  command : UInt8
  symbolId : Int
  seconds : Int
  mask : Nat
  live : List (String × Int)
  timeMs : Option Int
  volumeUnits : Option Int
  fields : List (Nat × Int)
  compatibilityTimeMs : Option Int
  extensions : List (Nat × Int)
  additionalMasks : Option (List (Nat × Int))
  bitsBeforePadding : Nat
  paddingCount : Nat
  paddingValue : Nat
  deriving DecidableEq, Repr

namespace QuoteRow

def liveGet (row : QuoteRow) (name : String) : Option Int := row.live.lookup name

def fieldGet (row : QuoteRow) (bit : Nat) : Option Int := row.fields.lookup bit

end QuoteRow

/-- The fields of the mask among these bits, in this order, each read as 64 bits. -/
def maskedFields (mask : Nat) (bits : List Nat) (signed : Nat → Bool) :
    BitDecoder (List (Nat × Int)) :=
  Decoder.each (fun bit => do
    let v ← packed 64 (signed bit)
    return (bit, v)) (bits.filter mask.testBit)

/-- The fields of a record of command 50, up to the boundary. -/
def liveRow (start : Nat) (symbolId : Int) : BitDecoder QuoteRow := do
  let seconds ← packed 64 true
  let mask ← packedNat 64
  let live ← Decoder.each (fun field => do
    let v ← packed field.2.2.1 field.2.2.2
    return (field.2.1, v)) (LIVE_FIELDS.filter fun field => mask.testBit field.1)
  let ms := (live.lookup "millisecond_component").getD 0
  let whole := (live.lookup "whole_volume").getD 0
  let frac := (live.lookup "fractional_volume").getD 0
  let extensions ← maskedFields mask (List.range' 9 55) fun _ => false
  let bitsBeforePadding := (← get).position - start
  return {
    command := 50
    symbolId
    seconds
    mask
    live
    timeMs := some (wrapI64 (seconds * 1000 + ms))
    volumeUnits :=
      if mask.testBit 3 ∨ mask.testBit 8 then some ((whole * 100000000 + frac) % 2 ^ 64) else none
    fields := []
    compatibilityTimeMs := none
    extensions
    additionalMasks := none
    bitsBeforePadding
    paddingCount := 0
    paddingValue := 0 }

/-- The fields of a record of command 51, up to the boundary. -/
def snapshotRow (start : Nat) (symbolId : Int) : BitDecoder QuoteRow := do
  let mask ← packedNat 64
  let seconds ← packed 64 true
  let fields ← maskedFields mask snapshotOrder fun bit => !snapshotUnsigned bit
  let extensions ← maskedFields mask (List.range' 41 23) fun _ => false
  let additionalMasks ← maskedFields mask [62, 63] fun _ => false
  let bitsBeforePadding := (← get).position - start
  return {
    command := 51
    symbolId
    seconds
    mask
    live := []
    timeMs := none
    volumeUnits := none
    fields
    compatibilityTimeMs := some (if mask.testBit 26 then wrapI64 (seconds * 1000) else 0)
    extensions
    additionalMasks := some additionalMasks
    bitsBeforePadding
    paddingCount := 0
    paddingValue := 0 }

/-- The fields of a record, up to the boundary. -/
def quoteFields (command : UInt8) : BitDecoder QuoteRow := do
  let start := (← get).position
  let symbolId ← packed 32 true
  if command = 50 then liveRow start symbolId else snapshotRow start symbolId

/-- One record of `decode_quotes`. -/
def quoteRow (command : UInt8) : BitDecoder QuoteRow := do
  let row ← quoteFields command
  let (paddingCount, paddingValue) ← strictBoundary
  return { row with paddingCount, paddingValue }

theorem shrinks_maskedFields (mask : Nat) (bits : List Nat) (signed : Nat → Bool) :
    Decoder.Shrinks remaining (maskedFields mask bits signed) :=
  .each (fun _ => (shrinks_packed _ _).bind fun _ => .pure _) _

theorem shrinks_liveRow (start : Nat) (symbolId : Int) :
    Decoder.Shrinks remaining (liveRow start symbolId) := by
  apply (shrinks_packed _ _).bind
  intro seconds
  apply (shrinks_packedNat _).bind
  intro mask
  apply (Decoder.Shrinks.each (fun _ => (shrinks_packed _ _).bind fun _ => .pure _) _).bind
  intro live
  exact (shrinks_maskedFields _ _ _).bind fun _ => Decoder.Shrinks.get.bind fun _ => .pure _

theorem shrinks_snapshotRow (start : Nat) (symbolId : Int) :
    Decoder.Shrinks remaining (snapshotRow start symbolId) :=
  (shrinks_packedNat _).bind fun _ => (shrinks_packed _ _).bind fun _ =>
    (shrinks_maskedFields _ _ _).bind fun _ => (shrinks_maskedFields _ _ _).bind fun _ =>
    (shrinks_maskedFields _ _ _).bind fun _ => Decoder.Shrinks.get.bind fun _ => .pure _

theorem shrinks_quoteFields (command : UInt8) :
    Decoder.Shrinks remaining (quoteFields command) :=
  Decoder.Shrinks.get.bind fun _ => (shrinks_packed _ _).bind fun _ =>
    (shrinks_liveRow _ _).ite (shrinks_snapshotRow _ _)

/-- A quote takes at least one bit. -/
theorem quoteRow_remaining {command : UInt8} {row : QuoteRow} {r t : BitReader}
    (h : quoteRow command r = .ok (row, t)) : t.remaining < r.remaining := by
  obtain ⟨fields, middle, hfields, hend⟩ := Decoder.bind_eq_ok.mp h
  obtain ⟨padding, last, hpadding, hlast⟩ := Decoder.bind_eq_ok.mp hend
  have hfirst := shrinks_quoteFields command r fields middle hfields
  have hsecond := strictBoundary_remaining hpadding
  rw [← (Decoder.pure_eq_ok.mp hlast).2]
  omega

/-- The loop of `decode_quotes`. -/
def quoteLoop (command : UInt8) : Loop (List QuoteRow × BitReader) (Result (List QuoteRow)) where
  body
    | (rows, r) =>
      if r.position < r.limit then
        match quoteRow command r with
        | .error e => .inr (.error e)
        | .ok (row, rest) => .inl (rows ++ [row], rest)
      else .inr (.ok rows)
  measure s := s.2.remaining
  decreases := by
    rintro ⟨rows, r⟩ t h
    simp only at h
    split at h
    · split at h
      · cases h
      · rename_i row rest hrow
        cases Sum.inl.inj h
        exact quoteRow_remaining hrow
    · cases h

/-- `decode_quotes`. -/
def decodeQuotes (data : Bytes) (command : UInt8) : Result (List QuoteRow) :=
  if command ≠ 50 ∧ command ≠ 51 then reject "quote command must be 50 or 51"
  else (quoteLoop command).run ([], .new data)

/-! ## Depth -/

structure DepthEntry where
  mask : Nat
  entryType : Nat
  priceInteger : Int
  volumeDelta : Int
  auxiliary : Int
  deriving DecidableEq, Repr

structure DepthRecord where
  symbolId : Int
  opaqueHeaderA : Int
  opaqueHeaderB : Nat
  entries : List DepthEntry
  deriving DecidableEq, Repr

def depthEntry : BitDecoder DepthEntry := do
  let mask ← packedNat 64
  let entryType ← packedNat 8
  let priceInteger ← packed 64 true
  let volumeDelta ← signedMagnitude 64
  if ¬(-2 ^ 63 ≤ volumeDelta ∧ volumeDelta < 2 ^ 63) then
    Decoder.raise ⟨"depth volume overflow"⟩
  else
    let auxiliary ← packed 64 true
    return { mask, entryType, priceInteger, volumeDelta, auxiliary }

/-- The part of `read_record` behind the symbol id. -/
def depthBody (symbolId : Int) : BitDecoder DepthRecord := do
  let opaqueHeaderA ← packed 64 true
  let opaqueHeaderB ← packedNat 64
  let count ← packedNat 64
  if 100000 < count then Decoder.raise ⟨"implausible depth entry count"⟩
  else
    let entries ← Decoder.times depthEntry count
    return { symbolId, opaqueHeaderA, opaqueHeaderB, entries }

/-- `read_record`. -/
def readRecord : BitDecoder DepthRecord := do
  let symbolId ← packed 32 true
  depthBody symbolId

theorem shrinks_depthEntry : Decoder.Shrinks remaining depthEntry :=
  (shrinks_packedNat _).bind fun _ => (shrinks_packedNat _).bind fun _ =>
    (shrinks_packed _ _).bind fun _ => (shrinks_signedMagnitude _).bind fun _ =>
    (Decoder.Shrinks.raise _).ite ((shrinks_packed _ _).bind fun _ => .pure _)

theorem shrinks_depthBody (symbolId : Int) : Decoder.Shrinks remaining (depthBody symbolId) :=
  (shrinks_packed _ _).bind fun _ => (shrinks_packedNat _).bind fun _ =>
    (shrinks_packedNat _).bind fun count =>
    (Decoder.Shrinks.raise _).ite ((shrinks_depthEntry.times count).bind fun _ => .pure _)

/-- A depth record takes at least one bit. -/
theorem readRecord_remaining {record : DepthRecord} {r t : BitReader}
    (h : readRecord r = .ok (record, t)) : t.remaining < r.remaining := by
  obtain ⟨symbolId, middle, hsymbol, hbody⟩ := Decoder.bind_eq_ok.mp h
  have hfirst := packed_remaining hsymbol
  have hrest := shrinks_depthBody symbolId middle record t hbody
  omega

/-- The loop of `decode_depth`, over the records and the number of entries. -/
def depthLoop :
    Loop (List DepthRecord × Nat × BitReader) (Result (List DepthRecord × BitReader)) where
  body
    | (records, entries, r) =>
      if 7 < r.limit - r.position then
        match readRecord r with
        | .error e => .inr (.error e)
        | .ok (record, rest) =>
          if 1024 ≤ records.length ∨ 100000 < entries + record.entries.length then
            .inr (reject "depth batch exceeds limit")
          else .inl (records ++ [record], entries + record.entries.length, rest)
      else .inr (.ok (records, r))
  measure s := s.2.2.remaining
  decreases := by
    rintro ⟨records, entries, r⟩ t h
    simp only at h
    split at h
    · split at h
      · cases h
      · rename_i record rest hrecord
        split at h
        · cases h
        · cases Sum.inl.inj h
          exact readRecord_remaining hrecord
    · cases h

/-- `decode_depth`. -/
def decodeDepth (data : Bytes) : Result (List DepthRecord) := do
  let (records, r) ← depthLoop.run ([], 0, .new data)
  let (trailing, _) ← bits (r.limit - r.position) r
  if trailing ≠ 0 then reject "nonzero trailing depth bits" else return records

end Mt5Open.Native
