import Mathlib.Algebra.Order.BigOperators.Group.List
import Mt5Open.Native.Market

/-!
# Depth batches

`encodeDepthRecord` writes one depth record.  In a batch the bits of the records
follow each other without alignment, and only the end of the last one is padded to
a byte.

The decoder goes on while more than seven bits are left.  A record has at least
eight bits, one digit for each of its first four values, and the padding has at
most seven, so the decoder stops behind the last record and nowhere before.
-/

namespace Mt5Open.Native

open Lib Lib.Bits Lib.Tape

def writeEntry (e : DepthEntry) : BitEncoder Unit := do
  BitWriter.packed e.mask 64
  BitWriter.packed e.entryType 8
  BitWriter.packed e.priceInteger 64
  BitWriter.signedMagnitude e.volumeDelta 64
  BitWriter.packed e.auxiliary 64

/-- The writes of `encode_depth_record`. -/
def writeRecord (record : DepthRecord) : BitEncoder (List Unit) := do
  BitWriter.packed record.symbolId 32
  BitWriter.packed record.opaqueHeaderA 64
  BitWriter.packed record.opaqueHeaderB 64
  BitWriter.packed record.entries.length 64
  Decoder.each writeEntry record.entries

/-- `encode_depth_record`. -/
def encodeDepthRecord (record : DepthRecord) : Result Bytes :=
  match writeRecord record .new with
  | .error e => .error e
  | .ok (_, w) => .ok w.data

/-- The bits that `encode_depth_record` has written, without the padding of their
last byte. -/
def depthRecordBits (record : DepthRecord) : Result (List Bool) :=
  match writeRecord record .new with
  | .error e => .error e
  | .ok (_, w) => .ok ((ofBytes w.data).take w.position)

/-- `decode_depth_record`. -/
def decodeDepthRecord (data : Bytes) : Result (DepthRecord × Nat) :=
  match readRecord (.new data) with
  | .error e => .error e
  | .ok (record, r) => .ok (record, r.position)

/-! ## The fields in their types -/

/-- The fields of an entry are in the ranges of their types. -/
structure DepthEntry.Fits (e : DepthEntry) : Prop where
  mask : e.mask < 2 ^ 64
  entryType : e.entryType < 2 ^ 8
  priceInteger : InStorage 64 true e.priceInteger
  volumeDelta : InStorage 64 true e.volumeDelta
  auxiliary : InStorage 64 true e.auxiliary

structure DepthRecord.Fits (record : DepthRecord) : Prop where
  symbolId : InStorage 32 true record.symbolId
  opaqueHeaderA : InStorage 64 true record.opaqueHeaderA
  opaqueHeaderB : record.opaqueHeaderB < 2 ^ 64
  entries : ∀ e ∈ record.entries, e.Fits

def DepthEntry.bits (e : DepthEntry) : List Bool :=
  packedBits 2 64 e.mask ++ (packedBits 2 8 e.entryType ++ (packedBits 2 64 e.priceInteger ++
    (magnitudeBits 2 e.volumeDelta ++ packedBits 2 64 e.auxiliary)))

def DepthRecord.bits (record : DepthRecord) : List Bool :=
  packedBits 2 32 record.symbolId ++ (packedBits 2 64 record.opaqueHeaderA ++
    (packedBits 2 64 record.opaqueHeaderB ++ (packedBits 2 64 record.entries.length ++
      record.entries.flatMap DepthEntry.bits)))

/-! ## One record -/

/-- A packed integer has at least one digit. -/
theorem le_length_packedBits (k width : Nat) (v : Int) : k ≤ (packedBits k width v).length := by
  rw [packedBits, digits, List.length_append, List.length_append, length_field]
  omega

theorem eight_le_length_bits (record : DepthRecord) : 8 ≤ record.bits.length := by
  have hsymbol := le_length_packedBits 2 32 record.symbolId
  have hfirst := le_length_packedBits 2 64 record.opaqueHeaderA
  have hsecond := le_length_packedBits 2 64 record.opaqueHeaderB
  have hcount := le_length_packedBits 2 64 record.entries.length
  simp only [DepthRecord.bits, List.length_append]
  omega

/-- Every volume fits, the least one too: its magnitude is a half of the storage. -/
theorem natAbs_lt_of_inStorage {v : Int} (h : InStorage 64 true v) : v.natAbs < 2 ^ 64 := by
  obtain ⟨hmin, hmax⟩ : -2 ^ 63 ≤ v ∧ v < 2 ^ 63 := h
  omega

theorem DepthEntry.Fits.spells_write {e : DepthEntry} (h : e.Fits) (past : List Bool) :
    Spells (BitWriter.Stands 2) (writeEntry e) past e.bits () :=
  (InStorage.spells_writeNat h.mask _).bind ((InStorage.spells_writeNat h.entryType _).bind
    ((h.priceInteger.spells_write (by decide) _).bind
      ((BitWriter.spells_signedMagnitude (by decide) (by decide)
          (natAbs_lt_of_inStorage h.volumeDelta) _).bind
        (h.auxiliary.spells_write (by decide) _))))

theorem DepthEntry.Fits.spells_read {e : DepthEntry} (h : e.Fits) (past : List Bool) :
    Spells (BitReader.Stands 2) depthEntry past e.bits e := by
  refine (InStorage.spells_readNat (by decide) (by decide) h.mask _).bind ?_
  refine (InStorage.spells_readNat (by decide) (by decide) h.entryType _).bind ?_
  refine (h.priceInteger.spells_read (by decide) (by decide) _).bind ?_
  refine (BitReader.spells_signedMagnitude (by decide) (by decide)
    (natAbs_lt_of_inStorage h.volumeDelta) _).bind ?_
  have hvolume : -2 ^ 63 ≤ e.volumeDelta ∧ e.volumeDelta < 2 ^ 63 := h.volumeDelta
  rw [if_neg (not_not_intro hvolume)]
  exact (h.auxiliary.spells_read (by decide) (by decide) _).map _

theorem DepthRecord.Fits.spells_write {record : DepthRecord} (h : record.Fits)
    (hentries : record.entries.length ≤ 100000) (past : List Bool) :
    Spells (BitWriter.Stands 2) (writeRecord record) past record.bits
      (record.entries.map fun _ => ()) :=
  (h.symbolId.spells_write (by decide) _).bind ((h.opaqueHeaderA.spells_write (by decide) _).bind
    ((InStorage.spells_writeNat h.opaqueHeaderB _).bind
      ((InStorage.spells_writeNat (by omega) _).bind
        (Spells.each_const _ fun past e he => (h.entries e he).spells_write past))))

theorem DepthRecord.Fits.spells_read {record : DepthRecord} (h : record.Fits)
    (hentries : record.entries.length ≤ 100000) (past : List Bool) :
    Spells (BitReader.Stands 2) readRecord past record.bits record := by
  refine (h.symbolId.spells_read (by decide) (by decide) _).bind ?_
  refine (h.opaqueHeaderA.spells_read (by decide) (by decide) _).bind ?_
  refine (InStorage.spells_readNat (by decide) (by decide) h.opaqueHeaderB _).bind ?_
  refine (InStorage.spells_readNat (by decide) (by decide)
    (show record.entries.length < 2 ^ 64 by omega) _).bind ?_
  rw [if_neg (Nat.not_lt.mpr hentries)]
  refine (Spells.times_const _ fun past e he => (h.entries e he).spells_read past).bind_nil ?_
  exact Spells.pure_of_eq _ (by rw [List.map_id'])

/-! ## Batches -/

/-- The loop reads the records that are left, and stops in front of the padding. -/
theorem depthLoop_run {records : List DepthRecord} (h : ∀ record ∈ records, record.Fits)
    (done : List DepthRecord) (entries : Nat) (hcount : done.length + records.length ≤ 1024)
    (hentries : entries + (records.map fun record => record.entries.length).sum ≤ 100000)
    {past padding : List Bool} (hpadding : padding.length ≤ 7) {r : BitReader}
    (hr : r.Stands 2 past (records.flatMap DepthRecord.bits ++ padding)) :
    ∃ t, depthLoop.run (done, entries, r) = .ok (done ++ records, t) ∧
      t.Stands 2 (past ++ records.flatMap DepthRecord.bits) padding := by
  have hlimit := hr.limit_eq
  have hposition := hr.2.1
  induction records generalizing done entries past r with
  | nil =>
    have hround : depthLoop.body (done, entries, r) = .inr (.ok (done, r)) := by
      simp only [List.flatMap_nil, List.nil_append] at hlimit
      exact if_neg (by omega)
    refine ⟨r, ?_, ?_⟩
    · rw [Loop.run_of_stop _ hround, List.append_nil]
    · rw [List.flatMap_nil, List.append_nil]
      exact hr
  | cons record records ih =>
    rw [List.map_cons, List.sum_cons] at hentries
    rw [List.length_cons] at hcount
    rw [List.flatMap_cons, List.append_assoc] at hr hlimit
    have hsize := eight_le_length_bits record
    have hmore : 7 < r.limit - r.position := by
      rw [List.length_append] at hlimit
      omega
    obtain ⟨t, hread, ht⟩ :=
      (h record List.mem_cons_self).spells_read (by omega) past r _ hr
    have hround : depthLoop.body (done, entries, r) =
        .inl (done ++ [record], entries + record.entries.length, t) := by
      simp only [depthLoop, if_pos hmore, hread]
      rw [if_neg (by omega)]
    have hdone : (done ++ [record]).length + records.length ≤ 1024 := by
      rw [List.length_append, List.length_singleton]
      omega
    obtain ⟨u, hrest, hu⟩ := ih (fun other hother => h other (List.mem_cons_of_mem _ hother))
      (done ++ [record]) (entries + record.entries.length) hdone (by omega) ht ht.limit_eq ht.2.1
    refine ⟨u, ?_, ?_⟩
    · rw [Loop.run_of_next _ hround, hrest, List.append_assoc]
      rfl
    · rw [List.flatMap_cons, ← List.append_assoc]
      exact hu

/-- The decoder reads the records of a batch, and the zeros that fill its last byte. -/
theorem decodeDepth_toBytes {records : List DepthRecord} (h : ∀ record ∈ records, record.Fits)
    (hcount : records.length ≤ 1024)
    (hentries : (records.map fun record => record.entries.length).sum ≤ 100000) :
    decodeDepth (toBytes (records.flatMap DepthRecord.bits)) = .ok records := by
  have hstands := BitReader.stands_new (toBytes (records.flatMap DepthRecord.bits))
  rw [ofBytes_toBytes] at hstands
  obtain ⟨t, hrun, ht⟩ := depthLoop_run h [] 0 (by rw [List.length_nil]; omega) (by omega)
    (by rw [List.length_replicate]; omega) hstands
  obtain ⟨u, hbits⟩ := ht.bits_rest (by rw [List.length_replicate]; omega)
  rw [value_replicate_false] at hbits
  unfold decodeDepth
  simp only [hrun, hbits, bind, Except.bind, List.nil_append]
  rfl

theorem depthRecordBits_eq {record : DepthRecord} (h : record.Fits)
    (hentries : record.entries.length ≤ 100000) : depthRecordBits record = .ok record.bits := by
  obtain ⟨w, hwrite, -, hposition, hdata⟩ :=
    h.spells_write hentries [] .new [] (BitWriter.stands_withDigits (by decide) _)
  rw [List.nil_append] at hposition hdata
  simp only [depthRecordBits, hwrite, hposition, hdata, ofBytes_toBytes, List.take_left]

theorem encodeDepthRecord_eq {record : DepthRecord} (h : record.Fits)
    (hentries : record.entries.length ≤ 100000) :
    encodeDepthRecord record = .ok (toBytes record.bits) := by
  obtain ⟨w, hwrite, -, -, hdata⟩ :=
    h.spells_write hentries [] .new [] (BitWriter.stands_withDigits (by decide) _)
  rw [List.nil_append] at hdata
  simp only [encodeDepthRecord, hwrite, hdata]

theorem decodeDepthRecord_eq {record : DepthRecord} (h : record.Fits)
    (hentries : record.entries.length ≤ 100000) :
    decodeDepthRecord (toBytes record.bits) = .ok (record, record.bits.length) := by
  have hstands := BitReader.stands_new (toBytes record.bits)
  rw [ofBytes_toBytes] at hstands
  obtain ⟨t, hread, -, hposition, -⟩ := h.spells_read hentries [] _ _ hstands
  rw [List.nil_append] at hposition
  simp only [decodeDepthRecord, hread, hposition]

/-- The records of a batch are read back, from their bits in a row and padded once; and
so is a record on its own, which also says how many its bits are. -/
theorem depth_batch_round_trip :
    (∀ records : List DepthRecord, (∀ record ∈ records, record.Fits) → records.length ≤ 1024 →
      (records.map fun record => record.entries.length).sum ≤ 100000 →
      ∃ strings, records.mapM depthRecordBits = .ok strings ∧
        decodeDepth (toBytes strings.flatten) = .ok records) ∧
    ∀ record : DepthRecord, record.Fits → record.entries.length ≤ 100000 →
      ∃ bytes, encodeDepthRecord record = .ok bytes ∧ decodeDepth bytes = .ok [record] ∧
        ∃ string, depthRecordBits record = .ok string ∧
          decodeDepthRecord bytes = .ok (record, string.length) := by
  constructor
  · intro records h hcount hentries
    have hstrings : ∀ record ∈ records, depthRecordBits record = .ok record.bits := by
      intro record hrecord
      have hle : record.entries.length ≤
          (records.map fun record => record.entries.length).sum :=
        List.le_sum_of_mem (List.mem_map.mpr ⟨record, hrecord, rfl⟩)
      exact depthRecordBits_eq (h record hrecord) (Nat.le_trans hle hentries)
    refine ⟨_, mapM_ok hstrings, ?_⟩
    rw [← List.flatMap_def]
    exact decodeDepth_toBytes h hcount hentries
  · intro record h hentries
    refine ⟨_, encodeDepthRecord_eq h hentries, ?_, _, depthRecordBits_eq h hentries,
      decodeDepthRecord_eq h hentries⟩
    have hbatch : decodeDepth (toBytes ([record].flatMap DepthRecord.bits)) = .ok [record] :=
      decodeDepth_toBytes (by simpa using h) (by simp) (by simpa using hentries)
    rwa [List.flatMap_singleton] at hbatch

/-- A record with the least volume. -/
def sampleRecord : DepthRecord where
  symbolId := 7
  opaqueHeaderA := 1700000000
  opaqueHeaderB := 0
  entries := [⟨0, 1, 123460, -2 ^ 63, 0⟩]

theorem sampleRecord_fits : sampleRecord.Fits := by
  refine ⟨by decide, by decide, by decide, ?_⟩
  intro e he
  obtain rfl := List.mem_singleton.mp he
  exact ⟨by decide, by decide, by decide, by decide, by decide⟩

/-- The record twice in a batch, and on its own. -/
theorem depth_batch_round_trip_sample :
    (∃ strings, [sampleRecord, sampleRecord].mapM depthRecordBits = .ok strings ∧
      decodeDepth (toBytes strings.flatten) = .ok [sampleRecord, sampleRecord]) ∧
    ∃ bytes, encodeDepthRecord sampleRecord = .ok bytes ∧
      decodeDepth bytes = .ok [sampleRecord] ∧
      ∃ string, depthRecordBits sampleRecord = .ok string ∧
        decodeDepthRecord bytes = .ok (sampleRecord, string.length) := by
  constructor
  · refine depth_batch_round_trip.1 [sampleRecord, sampleRecord] ?_ (by decide) (by decide)
    intro record hrecord
    simp only [List.mem_cons, List.not_mem_nil, or_false, or_self] at hrecord
    exact hrecord ▸ sampleRecord_fits
  · exact depth_batch_round_trip.2 sampleRecord sampleRecord_fits (by decide)

end Mt5Open.Native
