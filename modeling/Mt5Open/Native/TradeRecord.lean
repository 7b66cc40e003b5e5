import Mt5Open.Lib.Act
import Mt5Open.Lib.Layout
import Mt5Open.Native.Trade
import Mt5Open.Native.Utf16

/-!
# The record of a trade request

A record of 800 bytes as ordered, typed fields.  A field is set by its name, stored at its
place in the table and written at its span of the bytes.

`Typed` is the invariant of the records: the names of the table in their order, each with a
value of its kind.  Such records and the byte strings of 800 bytes are in bijection, and
setting a field changes one value and one span.
-/

namespace Mt5Open.Native

open Lib

/-! ## Values -/

/-- `0`, or zero bytes. -/
def Kind.zero : Kind → Value
  | .i32 => .i32 0
  | .i64 => .i64 0
  | .u64 => .u64 0
  | .f64 => .f64 .zero
  | .bytes n => .bytes (List.replicate n 0)

/-- The value is of the kind, and bytes are as many as it says. -/
def Kind.matches : Kind → Value → Bool
  | .i32, .i32 _ => true
  | .i64, .i64 _ => true
  | .u64, .u64 _ => true
  | .f64, .f64 _ => true
  | .bytes n, .bytes b => b.length = n
  | _, _ => false

/-- `to_le_bytes`, and bytes as they are. -/
def Value.toLe : Value → Bytes
  | .i32 v => LittleEndian.encodeInt 4 v
  | .i64 v => LittleEndian.encodeInt 8 v
  | .u64 v => LittleEndian.encode 8 v
  | .f64 v => LittleEndian.encode 8 v.bits
  | .bytes b => b

/-- A value that its machine type has. -/
def Value.InRange : Value → Prop
  | .i32 v => -2 ^ 31 ≤ v ∧ v < 2 ^ 31
  | .i64 v => -2 ^ 63 ≤ v ∧ v < 2 ^ 63
  | .u64 v => v < 2 ^ 64
  | .f64 v => v.bits < 2 ^ 64
  | .bytes _ => True

instance : (value : Value) → Decidable value.InRange
  | .i32 v => inferInstanceAs (Decidable (-2 ^ 31 ≤ v ∧ v < 2 ^ 31))
  | .i64 v => inferInstanceAs (Decidable (-2 ^ 63 ≤ v ∧ v < 2 ^ 63))
  | .u64 v => inferInstanceAs (Decidable (v < 2 ^ 64))
  | .f64 v => inferInstanceAs (Decidable (v.bits < 2 ^ 64))
  | .bytes _ => inferInstanceAs (Decidable True)

/-! ## Records -/

namespace TradeRecord

/-- `TradeRecord::zeroed`. -/
def zeroed : TradeRecord := ⟨TRADE_FIELDS.map fun field => (field.1, field.2.zero)⟩

/-- `TradeRecord::get`. -/
def get (r : TradeRecord) (name : String) : Option Value :=
  (r.fields.find? (·.1 = name)).map (·.2)

/-- The first slot of the name has the value. -/
def assign (name : String) (value : Value) : List (String × Value) → List (String × Value)
  | [] => []
  | slot :: fields =>
    if slot.1 = name then (slot.1, value) :: fields else slot :: assign name value fields

/-- `TradeRecord::set`. -/
def set (name : String) (value : Value) : Act ProtocolError TradeRecord Unit := fun r =>
  match TRADE_FIELDS.find? (·.1 = name) with
  | none => (reject s!"unknown trade field {name}", r)
  | some (_, kind) =>
    if !kind.matches value then (reject s!"type/size mismatch for field {name}", r)
    else (.ok (), ⟨assign name value r.fields⟩)

end TradeRecord

/-- The loop of `pack_trade_record`, over the table and the fields. -/
def packFields : List (String × Kind) → List (String × Value) → Result Bytes
  | (name, kind) :: fields, (fname, value) :: values =>
    if name ≠ fname then reject "trade record field order differs"
    else if !kind.matches value then reject s!"invalid trade record field: {name}"
    else do
      let rest ← packFields fields values
      return value.toLe ++ rest
  | _, _ => .ok []

/-- `pack_trade_record`. -/
def packTradeRecord (record : TradeRecord) : Result Bytes :=
  if record.fields.length ≠ TRADE_FIELDS.length then
    reject "trade record has the wrong field set"
  else packFields TRADE_FIELDS record.fields

/-! ## Requests -/

/-- A double whose pattern has 64 bits. -/
abbrev Price := { price : F64 // price.bits < 2 ^ 64 }

/-- The fields of a market or pending request. -/
structure MarketTradeFields where
  requestId : Int32
  tradeType : Int32
  login : UInt64
  symbol : String
  volumeUnits : UInt64
  digits : Int32
  orderType : Int32
  fillPolicy : Int32
  expirationType : Int32
  price : Price
  stopLoss : Price
  takeProfit : Price
  deviation : UInt64
  expertId : Int64
  comment : String
  orderTicket : Int64
  positionTicket : Int64
  oppositePositionTicket : Int64
  stopLimitPrice : Price
  expirationTime : Int64
  placedType : Int32
  deriving DecidableEq

open TradeRecord in
/-- The fields that `build_trade_record` sets, in its order. -/
def setTradeFields (f : MarketTradeFields) : Act ProtocolError TradeRecord Unit := do
  set "request_id" (.i32 f.requestId.toInt)
  set "trade_type" (.i32 f.tradeType.toInt)
  set "login" (.u64 f.login.toNat)
  set "symbol" (.bytes (utf16Field f.symbol 64))
  set "volume_units" (.u64 f.volumeUnits.toNat)
  set "digits" (.i32 f.digits.toInt)
  set "order_type" (.i32 f.orderType.toInt)
  set "fill_policy" (.i32 f.fillPolicy.toInt)
  set "expiration_type" (.i32 f.expirationType.toInt)
  set "price" (.f64 f.price)
  set "stop_loss" (.f64 f.stopLoss)
  set "take_profit" (.f64 f.takeProfit)
  set "deviation" (.u64 f.deviation.toNat)
  set "expert_id" (.i64 f.expertId.toInt)
  set "comment" (.bytes (utf16Field f.comment 64))
  set "order_ticket" (.i64 f.orderTicket.toInt)
  set "position_ticket" (.i64 f.positionTicket.toInt)
  set "opposite_position_ticket" (.i64 f.oppositePositionTicket.toInt)
  set "stop_limit_price" (.f64 f.stopLimitPrice)
  set "expiration_time" (.i64 f.expirationTime.toInt)
  set "placed_type" (.i32 f.placedType.toInt)

/-- `build_trade_record`. -/
def buildTradeRecord (f : MarketTradeFields) : Result Bytes := do
  let (_, r) ← (setTradeFields f).within .zeroed
  packTradeRecord r

/-! ## The bytes of a value -/

section Kinds

variable {kind : Kind} {value : Value} {field : Bytes}

/-- The kinds with the values that match them. -/
theorem matches_cases (h : kind.matches value) :
    (kind = .i32 ∧ ∃ v, value = .i32 v) ∨ (kind = .i64 ∧ ∃ v, value = .i64 v) ∨
      (kind = .u64 ∧ ∃ v, value = .u64 v) ∨ (kind = .f64 ∧ ∃ v, value = .f64 v) ∨
        ∃ b, kind = .bytes b.length ∧ value = .bytes b := by
  cases kind <;> cases value
  all_goals first
    | cases h; done
    | simp
  exact (of_decide_eq_true h).symm

theorem length_toLe (h : kind.matches value) : value.toLe.length = kind.size := by
  obtain ⟨rfl, v, rfl⟩ | ⟨rfl, v, rfl⟩ | ⟨rfl, v, rfl⟩ | ⟨rfl, v, rfl⟩ | ⟨b, rfl, rfl⟩ :=
    matches_cases h
  · exact LittleEndian.length_encodeInt 4 v
  · exact LittleEndian.length_encodeInt 8 v
  · exact LittleEndian.length_encode 8 v
  · exact LittleEndian.length_encode 8 v.bits
  · rfl

/-- A value is read from its bytes. -/
theorem read_toLe (h : kind.matches value) (hrange : value.InRange) :
    kind.read value.toLe = value := by
  obtain ⟨rfl, v, rfl⟩ | ⟨rfl, v, rfl⟩ | ⟨rfl, v, rfl⟩ | ⟨rfl, v, rfl⟩ | ⟨b, rfl, rfl⟩ :=
    matches_cases h
  · have hv : -2 ^ 31 ≤ v ∧ v < 2 ^ 31 := hrange
    exact congrArg Value.i32 (LittleEndian.decodeInt_encodeInt (by omega) (by omega))
  · have hv : -2 ^ 63 ≤ v ∧ v < 2 ^ 63 := hrange
    exact congrArg Value.i64 (LittleEndian.decodeInt_encodeInt (by omega) (by omega))
  · exact congrArg Value.u64 (LittleEndian.decode_encode_of_lt (n := 8) hrange)
  · exact congrArg (fun bits => Value.f64 ⟨bits⟩)
      (LittleEndian.decode_encode_of_lt (n := 8) hrange)
  · rfl

theorem matches_read (h : field.length = kind.size) : kind.matches (kind.read field) := by
  cases kind with
  | bytes n => exact decide_eq_true h
  | _ => rfl

/-- The bytes that are read are those of the value. -/
theorem toLe_read (h : field.length = kind.size) : (kind.read field).toLe = field := by
  have hsigned := LittleEndian.encodeInt_decodeInt field
  have hunsigned := LittleEndian.encode_decode field
  rw [h] at hsigned hunsigned
  cases kind with
  | i32 => exact hsigned
  | i64 => exact hsigned
  | u64 => exact hunsigned
  | f64 => exact hunsigned
  | bytes n => rfl

theorem inRange_read (h : field.length = kind.size) : (kind.read field).InRange := by
  have hlt := LittleEndian.decodeInt_lt field
  have hle := LittleEndian.le_decodeInt field
  have hnat := LittleEndian.decode_lt field
  rw [h] at hlt hle hnat
  cases kind with
  | i32 =>
    show -2 ^ 31 ≤ LittleEndian.decodeInt field ∧ LittleEndian.decodeInt field < 2 ^ 31
    simp only [Kind.size] at hlt hle
    omega
  | i64 =>
    show -2 ^ 63 ≤ LittleEndian.decodeInt field ∧ LittleEndian.decodeInt field < 2 ^ 63
    simp only [Kind.size] at hlt hle
    omega
  | u64 => exact hnat
  | f64 => exact hnat
  | bytes n => trivial

theorem matches_zero (kind : Kind) : kind.matches kind.zero := by
  cases kind with
  | bytes n => exact decide_eq_true List.length_replicate
  | _ => rfl

theorem inRange_zero (kind : Kind) : kind.zero.InRange := by
  cases kind with
  | bytes n => trivial
  | _ => decide

end Kinds

/-! ## Typed records -/

/-- The names of a table in their order, each with a value of its kind. -/
def Typed : List (String × Kind) → List (String × Value) → Prop :=
  List.Forall₂ fun field slot => field.1 = slot.1 ∧ field.2.matches slot.2 ∧ slot.2.InRange

/-- The sizes of the fields of a table. -/
def sizes (fields : List (String × Kind)) : List Nat := fields.map (·.2.size)

section Fields

variable {fields : List (String × Kind)} {values : List (String × Value)} {record : Bytes}

theorem packFields_of_typed (h : Typed fields values) :
    packFields fields values = .ok (values.map (·.2.toLe)).flatten := by
  induction h with
  | nil => rfl
  | cons hslot _ ih =>
    obtain ⟨hname, hmatches, -⟩ := hslot
    rw [packFields, if_neg (not_not_intro hname), hmatches, ih]
    rfl

theorem map_length_toLe (h : Typed fields values) :
    (values.map (·.2.toLe)).map List.length = sizes fields := by
  induction h with
  | nil => rfl
  | cons hslot _ ih =>
    rw [List.map_cons, List.map_cons, ih, length_toLe hslot.2.1]
    rfl

/-- The record is read chunk by chunk. -/
theorem readFields_eq (fields : List (String × Kind)) (record : Bytes) :
    readFields fields record =
      List.zipWith (fun field chunk => (field.1, field.2.read chunk)) fields
        (Layout.cut (sizes fields) record) := by
  induction fields generalizing record with
  | nil => rfl
  | cons field fields ih =>
    obtain ⟨name, kind⟩ := field
    rw [readFields, ih]
    rfl

theorem typed_readFields (h : record.length = (sizes fields).sum) :
    Typed fields (readFields fields record) := by
  induction fields generalizing record with
  | nil => exact .nil
  | cons field fields ih =>
    obtain ⟨name, kind⟩ := field
    have hsum : record.length = kind.size + (sizes fields).sum := h
    have htake : (record.take kind.size).length = kind.size := by
      rw [List.length_take]
      omega
    refine .cons ⟨rfl, matches_read htake, inRange_read htake⟩ (ih ?_)
    rw [List.length_drop]
    omega

/-- The values of a record are read from their bytes. -/
theorem readFields_flatten (h : Typed fields values) :
    readFields fields (values.map (·.2.toLe)).flatten = values := by
  rw [readFields_eq, Layout.cut_flatten (map_length_toLe h)]
  induction h with
  | nil => rfl
  | cons hslot _ ih =>
    obtain ⟨hname, hmatches, hrange⟩ := hslot
    rw [List.map_cons, List.zipWith_cons_cons, ih, read_toLe hmatches hrange, hname]

/-- The bytes of the values that are read are the chunks of the record. -/
theorem map_toLe_readFields (h : record.length = (sizes fields).sum) :
    (readFields fields record).map (·.2.toLe) = Layout.cut (sizes fields) record := by
  induction fields generalizing record with
  | nil => rfl
  | cons field fields ih =>
    obtain ⟨name, kind⟩ := field
    have hsum : record.length = kind.size + (sizes fields).sum := h
    rw [readFields, List.map_cons, ih (by rw [List.length_drop]; omega),
      toLe_read (by rw [List.length_take]; omega)]
    rfl

theorem flatten_readFields (h : record.length = (sizes fields).sum) :
    ((readFields fields record).map (·.2.toLe)).flatten = record := by
  rw [map_toLe_readFields h, Layout.flatten_cut h]

end Fields

/-- The invariant of the records. -/
def TradeRecord.Typed (r : TradeRecord) : Prop := Native.Typed TRADE_FIELDS r.fields

theorem sum_sizes : (sizes TRADE_FIELDS).sum = 800 := rfl

theorem parseTradeRecord_of_length {record : Bytes} (h : record.length = 800) :
    parseTradeRecord record = .ok ⟨readFields TRADE_FIELDS record⟩ :=
  if_neg (not_not_intro (h.trans tradeRecordSize_eq.symm))

/-- Exactly the byte strings of 800 bytes are records. -/
theorem parseTradeRecord_eq_ok {record : Bytes} {r : TradeRecord} :
    parseTradeRecord record = .ok r ↔
      record.length = 800 ∧ r = ⟨readFields TRADE_FIELDS record⟩ := by
  by_cases h : record.length = 800
  · rw [parseTradeRecord_of_length h, Except.ok.injEq, eq_comm, and_iff_right h]
  · have hparse : parseTradeRecord record =
        reject s!"trade record must contain exactly {tradeRecordSize} bytes" := if_pos h
    rw [hparse]
    constructor
    · intro hok
      cases hok
    · intro hok
      exact absurd hok.1 h

theorem typed_parse {record : Bytes} {r : TradeRecord} (h : parseTradeRecord record = .ok r) :
    r.Typed := by
  obtain ⟨hlength, rfl⟩ := parseTradeRecord_eq_ok.mp h
  exact typed_readFields hlength

theorem typed_zeroed : TradeRecord.zeroed.Typed := by
  unfold TradeRecord.Typed Native.Typed TradeRecord.zeroed
  rw [List.forall₂_map_right_iff]
  exact List.forall₂_same.mpr fun field _ => ⟨rfl, matches_zero _, inRange_zero _⟩

/-- The bytes of a record. -/
def TradeRecord.bytes (r : TradeRecord) : Bytes := (r.fields.map (·.2.toLe)).flatten

namespace TradeRecord.Typed

variable {r : TradeRecord}

theorem pack (h : r.Typed) : packTradeRecord r = .ok r.bytes := by
  rw [packTradeRecord, if_neg (not_not_intro h.length_eq.symm)]
  exact packFields_of_typed h

theorem length_bytes (h : r.Typed) : r.bytes.length = 800 := by
  rw [bytes, List.length_flatten, map_length_toLe h, sum_sizes]

theorem parse (h : r.Typed) : parseTradeRecord r.bytes = .ok r := by
  rw [parseTradeRecord_of_length h.length_bytes]
  exact congrArg (fun fields => Except.ok (TradeRecord.mk fields)) (readFields_flatten h)

end TradeRecord.Typed

/-! ## Setting a field -/

namespace TradeRecord

variable {name other : String} {value : Value} {fields : List (String × Value)}

/-- The slot of a name is the one at its place. -/
theorem assign_eq_set {i : Nat} (hname : (fields.map Prod.fst)[i]? = some name)
    (hnodup : (fields.map Prod.fst).Nodup) :
    assign name value fields = fields.set i (name, value) := by
  induction fields generalizing i with
  | nil => cases hname
  | cons slot fields ih =>
    rw [List.map_cons, List.nodup_cons] at hnodup
    cases i with
    | zero =>
      have hslot : slot.1 = name := Option.some.inj hname
      rw [assign, if_pos hslot, hslot]
      rfl
    | succ i =>
      have hrest : (fields.map Prod.fst)[i]? = some name := hname
      have hother : slot.1 ≠ name := by
        intro h
        exact hnodup.1 (h ▸ List.mem_of_getElem? hrest)
      rw [assign, if_neg hother, ih hrest hnodup.2]
      rfl

theorem find?_assign_of_ne (h : other ≠ name) :
    (assign name value fields).find? (·.1 = other) = fields.find? (·.1 = other) := by
  induction fields with
  | nil => rfl
  | cons slot fields ih =>
    rw [assign]
    by_cases hslot : slot.1 = name
    · rw [if_pos hslot]
      have hmiss : ¬slot.1 = other := fun heq => h (heq.symm.trans hslot)
      rw [List.find?_cons_of_neg (by simpa using hmiss),
        List.find?_cons_of_neg (by simpa using hmiss)]
    · rw [if_neg hslot, List.find?_cons, List.find?_cons, ih]

theorem find?_assign (h : name ∈ fields.map Prod.fst) :
    (assign name value fields).find? (·.1 = name) = some (name, value) := by
  induction fields with
  | nil => cases h
  | cons slot fields ih =>
    rw [assign]
    by_cases hslot : slot.1 = name
    · rw [if_pos hslot, List.find?_cons_of_pos (by simpa using hslot), hslot]
    · have hrest : name ∈ fields.map Prod.fst := by
        cases h with
        | head => exact absurd rfl hslot
        | tail _ h => exact h
      rw [if_neg hslot, List.find?_cons_of_neg (by simpa using hslot), ih hrest]

end TradeRecord

theorem nodup_names : (TRADE_FIELDS.map Prod.fst).Nodup := by decide +kernel

theorem Typed.map_fst {fields : List (String × Kind)} {values : List (String × Value)}
    (h : Typed fields values) : values.map Prod.fst = fields.map Prod.fst := by
  induction h with
  | nil => rfl
  | cons hslot _ ih => rw [List.map_cons, List.map_cons, ih, hslot.1]

/-- A typed record stays typed when a value of the kind is put at a place. -/
theorem typed_set {fields : List (String × Kind)} {values : List (String × Value)} {i : Nat}
    {name : String} {kind : Kind} {value : Value} (h : Typed fields values)
    (hi : fields[i]? = some (name, kind)) (hmatches : kind.matches value)
    (hrange : value.InRange) : Typed fields (values.set i (name, value)) := by
  induction h generalizing i with
  | nil => cases hi
  | cons hslot hrest ih =>
    cases i with
    | zero =>
      cases Option.some.inj hi
      exact .cons ⟨rfl, hmatches, hrange⟩ hrest
    | succ i => exact .cons hslot (ih hi)

/-- What `set` does: an error and the record as it was, or the value at the place of the
name. -/
theorem set_cases (name : String) (value : Value) (r : TradeRecord) :
    (∃ e, TradeRecord.set name value r = (.error e, r)) ∨
      ∃ (i : Nat) (kind : Kind), TRADE_FIELDS[i]? = some (name, kind) ∧ kind.matches value ∧
        TradeRecord.set name value r = (.ok (), ⟨TradeRecord.assign name value r.fields⟩) := by
  unfold TradeRecord.set
  cases hfind : TRADE_FIELDS.find? (·.1 = name) with
  | none => exact .inl ⟨_, rfl⟩
  | some field =>
    obtain ⟨fname, kind⟩ := field
    by_cases hmatches : kind.matches value
    · have hname : fname = name := by simpa using List.find?_some hfind
      obtain ⟨i, hi⟩ := List.mem_iff_getElem?.mp (List.mem_of_find?_eq_some hfind)
      rw [hname] at hi
      exact .inr ⟨i, kind, hi, hmatches, if_neg (by simpa using hmatches)⟩
    · exact .inl ⟨_, if_pos (by simpa using hmatches)⟩

section Set

variable {r t : TradeRecord} {name other : String} {value : Value}

/-- The spans of the fields, each with its start and its size. -/
def tradeSpans : List (String × Nat × Nat) :=
  (TRADE_FIELDS.map Prod.fst).zip (Layout.spans 0 (sizes TRADE_FIELDS))

/-- The span of the name holds the value, and the other bytes are as they were. -/
def ChangesSpan (r t : TradeRecord) (name : String) (value : Value) : Prop :=
  ∃ start size before behind, (name, start, size) ∈ tradeSpans ∧
    packTradeRecord r = .ok before ∧ packTradeRecord t = .ok behind ∧
      slice behind start size = value.toLe ∧
        ∀ p, ¬(start ≤ p ∧ p < start + size) → behind[p]? = before[p]?

theorem set_eq_ok (hset : TradeRecord.set name value r = (.ok (), t)) :
    ∃ (i : Nat) (kind : Kind), TRADE_FIELDS[i]? = some (name, kind) ∧ kind.matches value ∧
      t = ⟨TradeRecord.assign name value r.fields⟩ := by
  obtain ⟨e, herror⟩ | ⟨i, kind, hi, hmatches, hok⟩ := set_cases name value r
  · rw [hset] at herror
    cases congrArg Prod.fst herror
  · exact ⟨i, kind, hi, hmatches, congrArg Prod.snd (hset.symm.trans hok)⟩

/-- In a typed record the slot of a name is at its place in the table. -/
theorem TradeRecord.Typed.assign_eq (h : r.Typed) {i : Nat} {kind : Kind}
    (hi : TRADE_FIELDS[i]? = some (name, kind)) :
    TradeRecord.assign name value r.fields = r.fields.set i (name, value) := by
  have hnames := Native.Typed.map_fst h
  apply TradeRecord.assign_eq_set
  · rw [hnames, List.getElem?_map, hi]
    rfl
  · rw [hnames]
    exact nodup_names

theorem TradeRecord.Typed.set (h : r.Typed) (name : String) (hrange : value.InRange) :
    (TradeRecord.set name value r).2.Typed := by
  obtain ⟨e, hset⟩ | ⟨i, kind, hi, hmatches, hset⟩ := set_cases name value r
  · rw [hset]
    exact h
  · rw [hset, h.assign_eq hi]
    exact typed_set h hi hmatches hrange

/-- The chunk at a place stands at the span of the place. -/
theorem TradeRecord.Typed.mem_tradeSpans (h : r.Typed) {i : Nat} {kind : Kind}
    (hi : TRADE_FIELDS[i]? = some (name, kind)) :
    (name, ((r.fields.map (·.2.toLe)).take i).flatten.length, kind.size) ∈ tradeSpans := by
  obtain ⟨hlt, hfield⟩ := List.getElem?_eq_some_iff.mp hi
  have hstart : ((r.fields.map (·.2.toLe)).take i).flatten.length =
      0 + ((sizes TRADE_FIELDS).take i).sum := by
    rw [List.length_flatten, List.map_take, map_length_toLe h, Nat.zero_add]
  have hplace : i < (sizes TRADE_FIELDS).length := by
    rw [sizes, List.length_map]
    exact hlt
  have hsize : (sizes TRADE_FIELDS)[i] = kind.size := by
    simp only [sizes, List.getElem_map, hfield]
  apply List.mem_of_getElem? (i := i)
  rw [tradeSpans, List.getElem?_zip_eq_some, List.getElem?_map, hi, Layout.getElem?_spans hplace,
    hstart, hsize]
  exact ⟨rfl, rfl⟩

/-- The chunk at a place has the size of the kind. -/
theorem TradeRecord.Typed.length_chunk (h : r.Typed) {i : Nat} {kind : Kind}
    (hi : TRADE_FIELDS[i]? = some (name, kind)) :
    ∃ chunk, (r.fields.map (·.2.toLe))[i]? = some chunk ∧ chunk.length = kind.size := by
  have hplace : (sizes TRADE_FIELDS)[i]? = some kind.size := by
    rw [sizes, List.getElem?_map, hi]
    rfl
  rw [← map_length_toLe h, List.getElem?_map] at hplace
  exact Option.map_eq_some_iff.mp hplace

/-- Setting a field changes its span and nothing else. -/
theorem TradeRecord.Typed.changesSpan (h : r.Typed) (hrange : value.InRange)
    (hset : TradeRecord.set name value r = (.ok (), t)) : ChangesSpan r t name value := by
  have ht : t.Typed := by
    have hafter := h.set name hrange
    rwa [hset] at hafter
  obtain ⟨i, kind, hi, hmatches, rfl⟩ := set_eq_ok hset
  have hchunks : (TradeRecord.mk (TradeRecord.assign name value r.fields)).bytes =
      ((r.fields.map (·.2.toLe)).set i value.toLe).flatten := by
    rw [TradeRecord.bytes, h.assign_eq hi, List.map_set]
  obtain ⟨chunk, hchunk, hlength⟩ := h.length_chunk hi
  obtain ⟨hlt, hget⟩ := List.getElem?_eq_some_iff.mp hchunk
  have hsize := length_toLe hmatches
  refine ⟨_, kind.size, r.bytes, _, h.mem_tradeSpans hi, h.pack, ht.pack, ?_, ?_⟩
  · rw [hchunks]
    refine slice_flatten (i := i) (List.getElem?_set_self hlt) ?_ hsize
    rw [List.take_set_of_le (Nat.le_refl i)]
  · intro p hp
    rw [hchunks]
    refine Layout.getElem?_flatten_set hlt ?_ ?_
    · rw [hsize, hget, hlength]
    · rw [hsize]
      exact hp

theorem TradeRecord.get_set_of_ne (hset : TradeRecord.set name value r = (.ok (), t))
    (h : other ≠ name) : t.get other = r.get other := by
  obtain ⟨i, kind, hi, hmatches, rfl⟩ := set_eq_ok hset
  exact congrArg (Option.map (·.2)) (TradeRecord.find?_assign_of_ne h)

theorem TradeRecord.Typed.get_set (h : r.Typed)
    (hset : TradeRecord.set name value r = (.ok (), t)) : t.get name = some value := by
  obtain ⟨i, kind, hi, hmatches, rfl⟩ := set_eq_ok hset
  have hmem : name ∈ r.fields.map Prod.fst := by
    rw [Native.Typed.map_fst h]
    exact List.mem_map.mpr ⟨_, List.mem_of_getElem? hi, rfl⟩
  exact congrArg (Option.map (·.2)) (TradeRecord.find?_assign hmem)

end Set

/-! ## Records that are made -/

/-- The records that come from `zeroed` or from bytes, through any calls of `set`. -/
inductive Made : TradeRecord → Prop
  | zeroed : Made .zeroed
  | parsed {record : Bytes} {r : TradeRecord} (h : parseTradeRecord record = .ok r) : Made r
  | set {r : TradeRecord} (hr : Made r) (name : String) {value : Value} (hvalue : value.InRange) :
    Made (TradeRecord.set name value r).2

theorem Made.typed {r : TradeRecord} (h : Made r) : r.Typed := by
  induction h with
  | zeroed => exact typed_zeroed
  | parsed h => exact typed_parse h
  | set hr name hvalue ih => exact ih.set name hvalue

/-! ## The record of a request -/

/-- Several fields, one after another. -/
def setAll (given : List (String × Value)) : Act ProtocolError TradeRecord Unit :=
  given.forM fun field => TradeRecord.set field.1 field.2

theorem setAll_nil : setAll [] = pure () := rfl

theorem setAll_cons (field : String × Value) (given : List (String × Value)) :
    setAll (field :: given) = TradeRecord.set field.1 field.2 >>= fun _ => setAll given := rfl

/-- The table has the name, with the kind of the value. -/
def Settable (field : String × Value) : Prop :=
  (∃ kind, (field.1, kind) ∈ TRADE_FIELDS ∧ kind.matches field.2) ∧ field.2.InRange

theorem find?_of_mem {fields : List (String × Kind)} {field : String × Kind}
    (hnodup : (fields.map Prod.fst).Nodup) (h : field ∈ fields) :
    fields.find? (·.1 = field.1) = some field := by
  induction fields with
  | nil => cases h
  | cons first fields ih =>
    rw [List.map_cons, List.nodup_cons] at hnodup
    cases h with
    | head => exact List.find?_cons_of_pos (decide_eq_true rfl)
    | tail _ h =>
      have hother : first.1 ≠ field.1 := by
        intro heq
        exact hnodup.1 (heq ▸ List.mem_map_of_mem h)
      rw [List.find?_cons_of_neg (by simpa using hother), ih hnodup.2 h]

theorem set_of_settable {field : String × Value} (h : Settable field) (r : TradeRecord) :
    ∃ t, TradeRecord.set field.1 field.2 r = (.ok (), t) := by
  obtain ⟨⟨kind, hmem, hmatches⟩, -⟩ := h
  have hfind := find?_of_mem nodup_names hmem
  refine ⟨⟨TradeRecord.assign field.1 field.2 r.fields⟩, ?_⟩
  simp only [TradeRecord.set, hfind, hmatches]
  rfl

/-- Each of several fields has its value behind them, and the others are as they were. -/
theorem exists_setAll {given : List (String × Value)} (h : ∀ field ∈ given, Settable field)
    (hnodup : (given.map Prod.fst).Nodup) {r : TradeRecord} (hr : r.Typed) :
    ∃ t, setAll given r = (.ok (), t) ∧ t.Typed ∧ (∀ field ∈ given, t.get field.1 = some field.2) ∧
      ∀ name, name ∉ given.map Prod.fst → t.get name = r.get name := by
  induction given generalizing r with
  | nil => exact ⟨r, rfl, hr, fun field h => absurd h List.not_mem_nil, fun name _ => rfl⟩
  | cons field given ih =>
    rw [List.map_cons, List.nodup_cons] at hnodup
    obtain ⟨s, hs⟩ := set_of_settable (h field (.head _)) r
    have hstyped : s.Typed := by
      have hafter := hr.set field.1 (h field (.head _)).2
      rwa [hs] at hafter
    obtain ⟨t, ht, httyped, hgiven, hothers⟩ :=
      ih (fun field hmem => h field (.tail _ hmem)) hnodup.2 hstyped
    refine ⟨t, ?_, httyped, ?_, ?_⟩
    · exact (Act.bind_of_ok hs).trans ht
    · intro other hmem
      cases hmem with
      | head => rw [hothers _ hnodup.1, hr.get_set hs]
      | tail _ hmem => exact hgiven other hmem
    · intro name hname
      rw [List.map_cons, List.mem_cons, not_or] at hname
      rw [hothers name hname.2, TradeRecord.get_set_of_ne hs hname.1]

/-- The values that a request gives to the fields. -/
def MarketTradeFields.given (f : MarketTradeFields) : List (String × Value) :=
  [("request_id", .i32 f.requestId.toInt),
    ("trade_type", .i32 f.tradeType.toInt),
    ("login", .u64 f.login.toNat),
    ("symbol", .bytes (utf16Field f.symbol 64)),
    ("volume_units", .u64 f.volumeUnits.toNat),
    ("digits", .i32 f.digits.toInt),
    ("order_type", .i32 f.orderType.toInt),
    ("fill_policy", .i32 f.fillPolicy.toInt),
    ("expiration_type", .i32 f.expirationType.toInt),
    ("price", .f64 f.price),
    ("stop_loss", .f64 f.stopLoss),
    ("take_profit", .f64 f.takeProfit),
    ("deviation", .u64 f.deviation.toNat),
    ("expert_id", .i64 f.expertId.toInt),
    ("comment", .bytes (utf16Field f.comment 64)),
    ("order_ticket", .i64 f.orderTicket.toInt),
    ("position_ticket", .i64 f.positionTicket.toInt),
    ("opposite_position_ticket", .i64 f.oppositePositionTicket.toInt),
    ("stop_limit_price", .f64 f.stopLimitPrice),
    ("expiration_time", .i64 f.expirationTime.toInt),
    ("placed_type", .i32 f.placedType.toInt)]

theorem setTradeFields_eq (f : MarketTradeFields) : setTradeFields f = setAll f.given := by
  simp only [setTradeFields, MarketTradeFields.given, setAll_cons, setAll_nil, Act.bind_pure_unit]

section Settable

variable {name : String}

theorem settable_i32 (v : Int32) (h : (name, Kind.i32) ∈ TRADE_FIELDS := by decide) :
    Settable (name, .i32 v.toInt) := ⟨⟨.i32, h, rfl⟩, v.le_toInt, v.toInt_lt⟩

theorem settable_i64 (v : Int64) (h : (name, Kind.i64) ∈ TRADE_FIELDS := by decide) :
    Settable (name, .i64 v.toInt) := ⟨⟨.i64, h, rfl⟩, v.le_toInt, v.toInt_lt⟩

theorem settable_u64 (v : UInt64) (h : (name, Kind.u64) ∈ TRADE_FIELDS := by decide) :
    Settable (name, .u64 v.toNat) := ⟨⟨.u64, h, rfl⟩, v.toNat_lt⟩

theorem settable_f64 (v : Price) (h : (name, Kind.f64) ∈ TRADE_FIELDS := by decide) :
    Settable (name, .f64 v) := ⟨⟨.f64, h, rfl⟩, v.2⟩

theorem settable_text (s : String) {size : Nat}
    (h : (name, Kind.bytes size) ∈ TRADE_FIELDS := by decide) :
    Settable (name, .bytes (utf16Field s size)) :=
  ⟨⟨.bytes size, h, decide_eq_true (length_utf16Field s size)⟩, trivial⟩

theorem settable_given (f : MarketTradeFields) : ∀ field ∈ f.given, Settable field := by
  simp only [MarketTradeFields.given, List.forall_mem_cons]
  exact ⟨settable_i32 f.requestId, settable_i32 f.tradeType, settable_u64 f.login,
    settable_text f.symbol, settable_u64 f.volumeUnits, settable_i32 f.digits,
    settable_i32 f.orderType, settable_i32 f.fillPolicy, settable_i32 f.expirationType,
    settable_f64 f.price, settable_f64 f.stopLoss, settable_f64 f.takeProfit,
    settable_u64 f.deviation, settable_i64 f.expertId, settable_text f.comment,
    settable_i64 f.orderTicket, settable_i64 f.positionTicket,
    settable_i64 f.oppositePositionTicket, settable_f64 f.stopLimitPrice,
    settable_i64 f.expirationTime, settable_i32 f.placedType,
    fun field h => absurd h List.not_mem_nil⟩

end Settable

/-- The names of the fields that a request gives. -/
def givenNames : List String :=
  ["request_id", "trade_type", "login", "symbol", "volume_units", "digits", "order_type",
    "fill_policy", "expiration_type", "price", "stop_loss", "take_profit", "deviation",
    "expert_id", "comment", "order_ticket", "position_ticket", "opposite_position_ticket",
    "stop_limit_price", "expiration_time", "placed_type"]

theorem map_fst_given (f : MarketTradeFields) : f.given.map Prod.fst = givenNames := rfl

theorem nodup_givenNames : givenNames.Nodup := by decide +kernel

theorem get_zeroed : ∀ field ∈ TRADE_FIELDS,
    TradeRecord.zeroed.get field.1 = some field.2.zero := by decide +kernel

/-- A field of this size holds the text. -/
def HoldsText (size : Nat) (value : Option Value) (s : String) : Prop :=
  ∃ field : Record size, value = some (.bytes field.bytes) ∧
    field.text 0 size (Nat.le_of_eq (Nat.zero_add size)) = s

/-- Each value of a request is in the field of its name, and the other fields are zero. -/
structure Carries (f : MarketTradeFields) (r : TradeRecord) : Prop where
  request_id : r.get "request_id" = some (.i32 f.requestId.toInt)
  trade_type : r.get "trade_type" = some (.i32 f.tradeType.toInt)
  login : r.get "login" = some (.u64 f.login.toNat)
  symbol : HoldsText 64 (r.get "symbol") f.symbol
  volume_units : r.get "volume_units" = some (.u64 f.volumeUnits.toNat)
  digits : r.get "digits" = some (.i32 f.digits.toInt)
  order_type : r.get "order_type" = some (.i32 f.orderType.toInt)
  fill_policy : r.get "fill_policy" = some (.i32 f.fillPolicy.toInt)
  expiration_type : r.get "expiration_type" = some (.i32 f.expirationType.toInt)
  price : r.get "price" = some (.f64 f.price)
  stop_loss : r.get "stop_loss" = some (.f64 f.stopLoss)
  take_profit : r.get "take_profit" = some (.f64 f.takeProfit)
  deviation : r.get "deviation" = some (.u64 f.deviation.toNat)
  expert_id : r.get "expert_id" = some (.i64 f.expertId.toInt)
  comment : HoldsText 64 (r.get "comment") f.comment
  order_ticket : r.get "order_ticket" = some (.i64 f.orderTicket.toInt)
  position_ticket : r.get "position_ticket" = some (.i64 f.positionTicket.toInt)
  opposite_position_ticket :
    r.get "opposite_position_ticket" = some (.i64 f.oppositePositionTicket.toInt)
  stop_limit_price : r.get "stop_limit_price" = some (.f64 f.stopLimitPrice)
  expiration_time : r.get "expiration_time" = some (.i64 f.expirationTime.toInt)
  placed_type : r.get "placed_type" = some (.i32 f.placedType.toInt)
  others : ∀ field ∈ TRADE_FIELDS, field.1 ∉ givenNames → r.get field.1 = some field.2.zero

/-- The text fits in a field of 64 bytes, and it has no NUL. -/
def FitsField (s : String) : Prop :=
  (s.toList.flatMap utf16Units).length ≤ 32 ∧ '\x00' ∉ s.toList

theorem holdsText_utf16Field {s : String} (h : FitsField s) {value : Option Value}
    (hvalue : value = some (.bytes (utf16Field s 64))) : HoldsText 64 value s := by
  obtain ⟨hunits, hnul⟩ := h
  exact ⟨⟨utf16Field s 64, length_utf16Field s 64⟩, hvalue,
    text_utf16Field hnul (by omega) rfl⟩

theorem exists_build (f : MarketTradeFields) (hsymbol : FitsField f.symbol)
    (hcomment : FitsField f.comment) :
    ∃ record r, buildTradeRecord f = .ok record ∧ parseTradeRecord record = .ok r ∧
      Carries f r := by
  obtain ⟨r, hset, hr, hgiven, hothers⟩ :=
    exists_setAll (settable_given f) (by rw [map_fst_given]; exact nodup_givenNames) typed_zeroed
  have hbuild : buildTradeRecord f = .ok r.bytes := by
    have hwithin : (setTradeFields f).within .zeroed = .ok ((), r) := by
      rw [setTradeFields_eq]
      exact Act.within_eq_ok.mpr hset
    rw [buildTradeRecord, hwithin]
    exact hr.pack
  simp only [MarketTradeFields.given, List.forall_mem_cons] at hgiven
  obtain ⟨hrequestId, htradeType, hlogin, hsymbolField, hvolumeUnits, hdigits, horderType,
    hfillPolicy, hexpirationType, hprice, hstopLoss, htakeProfit, hdeviation, hexpertId,
    hcommentField, horderTicket, hpositionTicket, hoppositeTicket, hstopLimitPrice,
    hexpirationTime, hplacedType, -⟩ := hgiven
  refine ⟨r.bytes, r, hbuild, hr.parse, hrequestId, htradeType, hlogin,
    holdsText_utf16Field hsymbol hsymbolField, hvolumeUnits, hdigits, horderType, hfillPolicy,
    hexpirationType, hprice, hstopLoss, htakeProfit, hdeviation, hexpertId,
    holdsText_utf16Field hcomment hcommentField, horderTicket, hpositionTicket,
    hoppositeTicket, hstopLimitPrice, hexpirationTime, hplacedType, ?_⟩
  intro field hfield hname
  rw [hothers field.1 (by rwa [map_fst_given]), get_zeroed field hfield]

/-! ## The codec -/

theorem map_fst_tradeSpans : tradeSpans.map Prod.fst = TRADE_FIELDS.map Prod.fst := rfl

theorem map_snd_tradeSpans : tradeSpans.map Prod.snd = Layout.spans 0 (sizes TRADE_FIELDS) := by
  apply List.map_snd_zip
  rw [Layout.length_spans, sizes, List.length_map, List.length_map]

/-- The spans are disjoint. -/
theorem pairwise_tradeSpans : tradeSpans.Pairwise fun a b => a.2.1 + a.2.2 ≤ b.2.1 := by
  have hspans := Layout.pairwise_spans 0 (sizes TRADE_FIELDS)
  rw [← map_snd_tradeSpans, List.pairwise_map] at hspans
  exact hspans

/-- The spans cover the record. -/
theorem exists_tradeSpan (p : Nat) :
    (∃ span ∈ tradeSpans, span.2.1 ≤ p ∧ p < span.2.1 + span.2.2) ↔ p < 800 := by
  constructor
  · rintro ⟨span, hmem, -, hp⟩
    have hmem' : span.2 ∈ Layout.spans 0 (sizes TRADE_FIELDS) := by
      rw [← map_snd_tradeSpans]
      exact List.mem_map_of_mem hmem
    have hend := Layout.end_le_of_mem_spans hmem'
    rw [sum_sizes] at hend
    omega
  · intro hp
    obtain ⟨place, hmem, hplace⟩ :
        ∃ place ∈ Layout.spans 0 (sizes TRADE_FIELDS), place.1 ≤ p ∧ p < place.1 + place.2 :=
      Layout.exists_span (Nat.zero_le p) (by rw [sum_sizes]; omega)
    rw [← map_snd_tradeSpans] at hmem
    obtain ⟨span, hspan, rfl⟩ := List.mem_map.mp hmem
    exact ⟨span, hspan, hplace⟩

/-- The record codec: 800 bytes and the records that are made are in bijection, a field that
is set changes its own span, the spans are disjoint and cover the record, and a request puts
each of its values into the field of its name. -/
theorem trade_record_codec :
    (∀ record, (∃ r, parseTradeRecord record = .ok r) ↔ record.length = 800) ∧
    (∀ record r, parseTradeRecord record = .ok r → packTradeRecord r = .ok record) ∧
    (∀ r, Made r → ∃ record, packTradeRecord r = .ok record ∧
      parseTradeRecord record = .ok r) ∧
    (∀ r t name value, Made r → value.InRange → TradeRecord.set name value r = (.ok (), t) →
      ChangesSpan r t name value) ∧
    (∀ r t name value e, TradeRecord.set name value r = (.error e, t) → t = r) ∧
    (tradeSpans.map Prod.fst = TRADE_FIELDS.map Prod.fst ∧ tradeSpans.length = 34 ∧
      (tradeSpans.Pairwise fun a b => a.2.1 + a.2.2 ≤ b.2.1) ∧
      ∀ p, (∃ span ∈ tradeSpans, span.2.1 ≤ p ∧ p < span.2.1 + span.2.2) ↔ p < 800) ∧
    (∀ f : MarketTradeFields, FitsField f.symbol → FitsField f.comment →
      ∃ record r, buildTradeRecord f = .ok record ∧ parseTradeRecord record = .ok r ∧
        Carries f r) := by
  refine ⟨?_, ?_, ?_, ?_, ?_,
    ⟨map_fst_tradeSpans, rfl, pairwise_tradeSpans, exists_tradeSpan⟩, exists_build⟩
  · intro record
    constructor
    · rintro ⟨r, hparse⟩
      exact (parseTradeRecord_eq_ok.mp hparse).1
    · intro hlength
      exact ⟨_, parseTradeRecord_of_length hlength⟩
  · intro record r hparse
    obtain ⟨hlength, rfl⟩ := parseTradeRecord_eq_ok.mp hparse
    rw [(typed_parse hparse).pack]
    exact congrArg Except.ok (flatten_readFields hlength)
  · intro r hr
    exact ⟨r.bytes, hr.typed.pack, hr.typed.parse⟩
  · intro r t name value hr hvalue hset
    exact hr.typed.changesSpan hvalue hset
  · intro r t name value e hset
    obtain ⟨e', herror⟩ | ⟨i, kind, -, -, hok⟩ := set_cases name value r
    · exact congrArg Prod.snd (hset.symm.trans herror)
    · rw [hset] at hok
      cases congrArg Prod.fst hok

end Mt5Open.Native
