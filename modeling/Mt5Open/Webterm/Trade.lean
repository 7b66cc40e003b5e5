import Mathlib.Data.Rat.Floor
import Mt5Open.Lib.Rounding
import Mt5Open.Native.Records
import Mt5Open.Webterm.Ticket

/-!
# Positions, orders and trade operations

`parsePositions` and `parseOrders` read the book of an account from the answer to
`CMD_POSITIONS`, and `pack` builds the operation that `Session::send` sends for a
command.  A close of a whole position, a cancel and a modification take the volume
of their operation from the book.

The volumes are the only doubles here that arithmetic is done on.  They are finite, and
they are rational numbers: a quotient and a product are rounded to 53 significant bits.
-/

namespace Mt5Open.Webterm.Trade

open Lib Native

/-! ## Volumes -/

/-- The volume units in one lot. -/
def LOT_MULTIPLIER : ℚ := 100000000

/-- `units as f64 / LOT_MULTIPLIER`. -/
def lotsOf (units : Nat) : ℚ := Rounding.round 53 (Rounding.round 53 (units : ℚ) / LOT_MULTIPLIER)

/-- `(volume_lots * LOT_MULTIPLIER) as u64`. -/
def unitsOf (lots : ℚ) : Nat := min ⌊Rounding.round 53 (lots * LOT_MULTIPLIER)⌋₊ (2 ^ 64 - 1)

/-! ## The book -/

def TRADE_MARKET : Nat := 3
def TRADE_PENDING : Nat := 5
def TRADE_MODIFY : Nat := 6
def TRADE_MODIFY_ORDER : Nat := 7
def TRADE_CANCEL : Nat := 8
def TYPE_BUY : Nat := 0
def TYPE_SELL : Nat := 1
def FILL_FOK : Nat := 0
def FILL_RETURN : Nat := 2
def TIME_GTC : Nat := 0
def ORDER_REC_SIZE : Nat := 356

/-- `u64_at`. -/
def u64At (bytes : Bytes) : Nat :=
  if bytes.length < 8 then 0 else LittleEndian.decode (bytes.take 8)

def fromUtf16Le (bytes : Bytes) : String :=
  .ofList (fromUtf16Lossy ((utf16Chunks bytes).takeWhile (· ≠ 0)))

/-- `x as i64` of an unsigned integer. -/
def asI64 (x : Nat) : Int := (x : Int).bmod (2 ^ 64)

structure Position where
  ticket : Int
  magic : Int
  symbol : String
  side : Nat
  volume : ℚ
  price : F64
  sl : F64
  tp : F64
  profit : F64
  swap : F64
  commission : F64
  time : Int
  comment : String

structure Order where
  ticket : Int
  magic : Int
  symbol : String
  kind : Nat
  volume : ℚ
  price : F64
  sl : F64
  tp : F64
  time : Int

/-- The walk over the fields of a position. -/
def posSize : Nat :=
  8 + 8 + 4 + 4 + 64 + 4 + 8 + 8 + 8 + 8 + 8 + 8 + 8 + 8 + 8 + 8 + 8 + 8 + 64 + 8 + 4 + 4 + 4 +
    64 + 4 + 4

/-- The records of this size from the offset on, as many as there are bytes for. -/
def recordsAt (size : Nat) (body : Bytes) : (count offset : Nat) → List Bytes
  | 0, _ => []
  | count + 1, offset =>
    if body.length < offset + size then []
    else slice body offset size :: recordsAt size body count (offset + size)

/-- One round of the loop in `parse_positions`. -/
def parsePosition (record : Bytes) : Position where
  ticket := i64At record
  time := u32At (record.drop 16)
  symbol := fromUtf16Le (slice record 24 64)
  side := u32At (record.drop 88)
  price := f64At (record.drop 92)
  sl := f64At (record.drop 108)
  tp := f64At (record.drop 116)
  volume := lotsOf (u64At (record.drop 124))
  profit := f64At (record.drop 132)
  commission := f64At (record.drop 156)
  swap := f64At (record.drop 164)
  comment := fromUtf16Le (slice record 188 64)
  magic := asI64 (u64At (record.drop 172))

def positionRecords (body : Bytes) : List Bytes :=
  if body.length < 4 then [] else recordsAt posSize body (u32At body) 4

def parsePositions (body : Bytes) : List Position := (positionRecords body).map parsePosition

/-- One round of the loop in `parse_orders`. -/
def parseOrder (record : Bytes) : Order where
  ticket := i64At record
  magic := asI64 (u64At (record.drop 224))
  symbol := fromUtf16Le (slice record 72 64)
  kind := u32At (record.drop 148)
  -- four bytes, where a position has eight
  volume := lotsOf (u32At (record.drop 204))
  price := f64At (record.drop 336)
  sl := .zero
  tp := .zero
  time := 0

def orderRecords (body : Bytes) : List Bytes :=
  if body.length < 4 then []
  else
    let o := 4 + u32At body * posSize
    if body.length < o + 4 then []
    else recordsAt ORDER_REC_SIZE body (u32At (body.drop o)) (o + 4)

def parseOrders (body : Bytes) : List Order := (orderRecords body).map parseOrder

/-! ## Operations -/

def utf16Le (s : String) (width : Nat) : Bytes :=
  let units := (s.toList.flatMap utf16Units).take (width / 2)
  units.flatMap (LittleEndian.encode 2) ++ List.replicate (width - 2 * units.length) 0

/-- The arguments of `pack_op`. -/
structure Operation where
  symbol : String
  actionId : Nat
  tradeAction : Nat
  volumeLots : ℚ
  digits : Nat
  tradeType : Nat
  price : F64
  sl : F64
  tp : F64
  tradeOrder : Int
  typeFilling : Nat
  comment : String
  tradePosition : Int
  priceTrigger : F64
  priceDeviation : Nat

/-- The fields of an operation in their order, with the zeros between them. -/
def packOpChunks (op : Operation) : List Bytes :=
  [LittleEndian.encode 4 op.actionId,
    LittleEndian.encode 4 op.tradeAction,
    utf16Le op.symbol 64,
    LittleEndian.encode 8 (unitsOf op.volumeLots),
    LittleEndian.encode 4 op.digits,
    LittleEndian.encodeInt 8 op.tradeOrder,
    LittleEndian.encode 4 op.tradeType,
    LittleEndian.encode 4 op.typeFilling,
    LittleEndian.encode 4 TIME_GTC,
    LittleEndian.encode 4 2,
    List.replicate 4 0,
    LittleEndian.encode 8 op.price.bits,
    LittleEndian.encode 8 op.priceTrigger.bits,
    LittleEndian.encode 8 op.sl.bits,
    LittleEndian.encode 8 op.tp.bits,
    LittleEndian.encode 4 op.priceDeviation,
    List.replicate 16 0,
    utf16Le op.comment 64,
    LittleEndian.encodeInt 8 op.tradePosition,
    List.replicate 12 0]

/-- `pack_op`. -/
def packOp (op : Operation) : Bytes := (packOpChunks op).flatten

/-! ## Commands -/

inductive Side
  | buy
  | sell
  deriving DecidableEq

inductive OrderKind
  | buyLimit
  | sellLimit
  | buyStop
  | sellStop
  | buyStopLimit
  | sellStopLimit
  deriving DecidableEq

def OrderKind.code : OrderKind → Nat
  | .buyLimit => 2
  | .sellLimit => 3
  | .buyStop => 4
  | .sellStop => 5
  | .buyStopLimit => 6
  | .sellStopLimit => 7

inductive Command
  | market (symbol : String) (side : Side) (volume : ℚ) (sl tp : F64) (comment : String)
  | pending (symbol : String) (kind : OrderKind) (volume : ℚ) (price sl tp stopLimit : F64)
      (comment : String)
  | closePosition (ticket : Int) (volume : Option ℚ)
  | cancelOrder (ticket : Int)
  | modifyPosition (ticket : Int) (sl tp : F64)
  | modifyOrder (ticket : Int) (price sl tp : F64)

structure Quote where
  bid : F64
  ask : F64

/-- What the connection answers while an operation is packed: the body of the answer to
`CMD_POSITIONS`, the last quote of a symbol, its digits, and a random action id. -/
structure Answers where
  book : Except Request.Error Bytes
  quote : String → Option Quote
  digits : String → Option Nat
  actionId : Nat

def MAX_COMMENT_CHARS : Nat := 26

def shortComment (comment : String) : String := .ofList (comment.toList.take MAX_COMMENT_CHARS)

/-- `map_err(other)`. -/
def orOther {α : Type} (answer : Except Request.Error α) : Except Ticket.SessionError α :=
  answer.mapError fun e => .other e.text

/-- The position of a command. -/
def findPosition (answers : Answers) (ticket : Int) : Except Ticket.SessionError Position := do
  let body ← orOther answers.book
  match (parsePositions body).find? (·.ticket == ticket) with
  | some position => return position
  | none => throw (.other "position not found")

/-- The order of a command. -/
def findOrder (answers : Answers) (ticket : Int) : Except Ticket.SessionError Order := do
  let body ← orOther answers.book
  match (parseOrders body).find? (·.ticket == ticket) with
  | some order => return order
  | none => throw (.other "order not found")

/-- The operation of a command: the first half of `Session::send`. -/
def pack (answers : Answers) : Command → Except Ticket.SessionError Bytes
  | .market symbol side volume sl tp comment =>
    let price := match answers.quote symbol with
      | some quote => if side = .buy then quote.ask else quote.bid
      | none => .zero
    return packOp
      { symbol, actionId := answers.actionId, tradeAction := TRADE_MARKET, volumeLots := volume
        digits := (answers.digits symbol).getD 2
        tradeType := if side = .buy then TYPE_BUY else TYPE_SELL
        price, sl, tp, tradeOrder := 0, typeFilling := FILL_FOK, comment := shortComment comment
        tradePosition := 0, priceTrigger := .zero, priceDeviation := 30 }
  | .pending symbol kind volume price sl tp stopLimit comment =>
    return packOp
      { symbol, actionId := answers.actionId, tradeAction := TRADE_PENDING, volumeLots := volume
        digits := (answers.digits symbol).getD 2, tradeType := kind.code
        price, sl, tp, tradeOrder := 0, typeFilling := FILL_RETURN
        comment := shortComment comment
        tradePosition := 0, priceTrigger := stopLimit, priceDeviation := 30 }
  | .closePosition ticket volume => do
    let p ← findPosition answers ticket
    let price := match answers.quote p.symbol with
      | some quote => if p.side = 0 then quote.bid else quote.ask
      | none => p.price
    return packOp
      { symbol := p.symbol, actionId := answers.actionId, tradeAction := TRADE_MARKET
        volumeLots := volume.getD p.volume, digits := (answers.digits p.symbol).getD 2
        tradeType := if p.side = 0 then TYPE_SELL else TYPE_BUY
        price, sl := .zero, tp := .zero, tradeOrder := 0, typeFilling := FILL_FOK, comment := ""
        tradePosition := ticket, priceTrigger := .zero, priceDeviation := 30 }
  | .cancelOrder ticket => do
    let o ← findOrder answers ticket
    return packOp
      { symbol := o.symbol, actionId := answers.actionId, tradeAction := TRADE_CANCEL
        volumeLots := o.volume, digits := (answers.digits o.symbol).getD 2, tradeType := o.kind
        price := o.price, sl := .zero, tp := .zero, tradeOrder := ticket, typeFilling := FILL_FOK
        comment := "", tradePosition := 0, priceTrigger := .zero, priceDeviation := 30 }
  | .modifyPosition ticket sl tp => do
    let p ← findPosition answers ticket
    return packOp
      { symbol := p.symbol, actionId := answers.actionId, tradeAction := TRADE_MODIFY
        volumeLots := p.volume, digits := (answers.digits p.symbol).getD 2, tradeType := p.side
        price := .zero, sl, tp, tradeOrder := ticket, typeFilling := FILL_RETURN
        comment := "", tradePosition := ticket, priceTrigger := .zero, priceDeviation := 30 }
  | .modifyOrder ticket price sl tp => do
    let o ← findOrder answers ticket
    return packOp
      { symbol := o.symbol, actionId := answers.actionId, tradeAction := TRADE_MODIFY_ORDER
        volumeLots := o.volume, digits := (answers.digits o.symbol).getD 2, tradeType := o.kind
        price, sl, tp, tradeOrder := ticket, typeFilling := FILL_RETURN
        comment := "", tradePosition := 0, priceTrigger := .zero, priceDeviation := 30 }

/-! ## The volume of an operation -/

theorem length_utf16Le (s : String) (width : Nat) (h : width % 2 = 0) :
    (utf16Le s width).length = width := by
  have hunits (units : List Nat) : (units.flatMap (LittleEndian.encode 2)).length =
      2 * units.length := by
    rw [List.length_flatMap]
    induction units with
    | nil => rfl
    | cons unit units ih =>
      rw [List.map_cons, List.sum_cons, ih, LittleEndian.length_encode, List.length_cons]
      ring
  rw [utf16Le, List.length_append, hunits, List.length_replicate, List.length_take]
  omega

/-- Bytes 72 to 80 of an operation. -/
theorem slice_packOp (op : Operation) :
    slice (packOp op) 72 8 = LittleEndian.encode 8 (unitsOf op.volumeLots) := by
  have hi : (packOpChunks op)[3]? = some (LittleEndian.encode 8 (unitsOf op.volumeLots)) := rfl
  refine slice_flatten hi ?_ (LittleEndian.length_encode _ _)
  simp [packOpChunks, length_utf16Le]

end Mt5Open.Webterm.Trade
