import Mt5Open.Native.Records
import Mt5Open.Native.Tlv

/-!
# Trade requests and their results

A request is a record of 800 bytes.  The signed payload of a request is a zero
selector, the record, and a list with one entry, the signature.  The broker
answers with command 55, whose payload begins with 35.
-/

namespace Mt5Open.Native

open Lib

/-! ## The request record -/

inductive Kind where
  | i32
  | i64
  | u64
  | f64
  | bytes (n : Nat)
  deriving DecidableEq, Repr

def Kind.size : Kind → Nat
  | .i32 => 4
  | .i64 | .u64 | .f64 => 8
  | .bytes n => n

/-- Field order and types of the trade record. -/
def TRADE_FIELDS : List (String × Kind) :=
  [("request_id", .i32),
    ("opaque_016", .bytes 64),
    ("trade_type", .i32),
    ("login", .u64),
    ("opaque_017", .bytes 72),
    ("transfer_login", .u64),
    ("text_018", .bytes 128),
    ("symbol", .bytes 64),
    ("volume_units", .u64),
    ("unknown_01a", .i64),
    ("digits", .i32),
    ("unknown_01b", .i64),
    ("opaque_01c", .bytes 20),
    ("order_ticket", .i64),
    ("opaque_01d", .bytes 64),
    ("unknown_01e", .i64),
    ("expiration_time", .i64),
    ("order_type", .i32),
    ("fill_policy", .i32),
    ("expiration_type", .i32),
    ("flags", .i64),
    ("placed_type", .i32),
    ("opaque_01f", .bytes 16),
    ("price", .f64),
    ("stop_limit_price", .f64),
    ("stop_loss", .f64),
    ("take_profit", .f64),
    ("deviation", .u64),
    ("opaque_020", .bytes 32),
    ("expert_id", .i64),
    ("comment", .bytes 64),
    ("position_ticket", .i64),
    ("opposite_position_ticket", .i64),
    ("opaque_021", .bytes 112)]

/-- Total serialized size of the trade record. -/
def tradeRecordSize : Nat := (TRADE_FIELDS.map fun field => field.2.size).sum

theorem tradeRecordSize_eq : tradeRecordSize = 800 := rfl

inductive Value where
  | i32 (v : Int)
  | i64 (v : Int)
  | u64 (v : Nat)
  | f64 (v : F64)
  | bytes (v : Bytes)
  deriving DecidableEq, Repr

/-- A trade record as ordered, typed fields. -/
structure TradeRecord where
  fields : List (String × Value)
  deriving DecidableEq, Repr

def Kind.read (kind : Kind) (field : Bytes) : Value :=
  match kind with
  | .i32 => .i32 (LittleEndian.decodeInt field)
  | .i64 => .i64 (LittleEndian.decodeInt field)
  | .u64 => .u64 (LittleEndian.decode field)
  | .f64 => .f64 (F64.fromLe field)
  | .bytes _ => .bytes field

/-- The fields of the record from here on. -/
def readFields : List (String × Kind) → Bytes → List (String × Value)
  | [], _ => []
  | (name, kind) :: fields, record =>
    (name, kind.read (record.take kind.size)) :: readFields fields (record.drop kind.size)

/-- `parse_trade_record`. -/
def parseTradeRecord (record : Bytes) : Result TradeRecord :=
  if record.length ≠ tradeRecordSize then
    reject s!"trade record must contain exactly {tradeRecordSize} bytes"
  else .ok ⟨readFields TRADE_FIELDS record⟩

/-- `make_signed_trade_payload`, with the keyed hash that it signs with. -/
def makeSignedTradePayload (hmacSha256 : Vector UInt8 32 → Bytes → Vector UInt8 32)
    (record : Bytes) (signingKey : Vector UInt8 32) : Result Bytes :=
  if record.length ≠ tradeRecordSize then reject s!"expected {tradeRecordSize}-byte record"
  else .ok (0x00 :: (record ++ encodeTlvs [(85, (hmacSha256 signingKey record).toList)]))

/-! ## Results -/

structure TradeUpdateRecord where
  transaction : Bytes
  request : Bytes
  result : Bytes
  tail : Bytes
  deriving DecidableEq, Repr

structure TradeUpdate35 where
  count : Int
  stride : Nat
  records : List TradeUpdateRecord
  deriving DecidableEq, Repr

def TradeUpdateRecord.split (record : Bytes) : TradeUpdateRecord where
  transaction := slice record 0 152
  request := slice record 152 800
  result := slice record 952 260
  tail := record.drop 1212

/-- `parse_trade_update_35`. -/
def parseTradeUpdate35 (body : Bytes) : Result TradeUpdate35 :=
  if body.length < 5 then reject "trade update too short for subtype + count"
  else if body.headD 0 ≠ 35 then reject "not a subtype-35 trade update"
  else
    let count := LittleEndian.decodeInt (slice body 1 4)
    if count ≤ 0 then reject "trade update count must be positive"
    else
      let remaining := body.length - 5
      if ¬count.toNat ∣ remaining then reject "trade update body not divisible by count"
      else
        let stride := remaining / count.toNat
        if stride < 1212 then reject "trade update stride below the 1212-byte base"
        else .ok {
          count
          stride
          records := (List.range count.toNat).map fun i =>
            .split (slice body (5 + i * stride) stride) }

structure TradeResult where
  requestId : Int
  status : Int
  deal : Nat
  ticket : Nat
  volume : Nat
  price : F64
  comment : String
  deriving DecidableEq, Repr

namespace TradeResult

/-- `TradeResult::decode_update`. -/
def decodeUpdate (bytes : Bytes) : Result (List TradeResult) := do
  let parsed ← parseTradeUpdate35 bytes
  parsed.records.mapM fun update => do
    let r ← Record.new update.result 260
    return {
      requestId := LittleEndian.decodeInt (update.request.take 4)
      status := r.i32 0
      deal := r.u64 4
      ticket := r.u64 12
      volume := r.u64 20
      price := r.f64 28
      comment := r.text 68 64 }

/-- `TradeResult::is_final`. -/
def isFinal (r : TradeResult) : Bool := 10004 ≤ r.status

end TradeResult

end Mt5Open.Native
