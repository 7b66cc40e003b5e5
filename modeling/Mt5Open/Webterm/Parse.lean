import Mt5Open.Double
import Mt5Open.Lib.Stride
import Mt5Open.Webterm.Trade

/-!
# Account, symbols, quotes, deals and candles

The decoders of `parse.rs` beside those of positions, orders and trade answers.  Integers
wrap here, as they do in a release build.

The powers of ten and the quotients of doubles are parameters: `10f64.powi(n)` has no exact
specification.
-/

namespace Mt5Open.Webterm.Parse

open Lib Trade

/-- The operations on doubles that the decoders use. -/
structure Floats where
  /-- `10f64.powi(n)`. -/
  powi : Int → F64
  /-- `a / b`. -/
  div : F64 → F64 → F64

/-- `1.0`. -/
def one : F64 := ⟨0x3ff0000000000000⟩

/-- `u16_at`. -/
def u16At (bytes : Bytes) : Nat :=
  if bytes.length < 2 then 0 else LittleEndian.decode (bytes.take 2)

/-- `x as i32` of an unsigned integer. -/
def asI32 (x : Nat) : Int := (x : Int).bmod (2 ^ 32)

/-! ## The account -/

structure Account where
  login : Nat
  balance : F64
  equity : F64
  currency : String
  server : String
  leverage : Nat
  timezoneShiftSeconds : Int
  daylightMode : Nat

/-- `take` of `parse_account`: the next bytes, fewer when the body ends. -/
def take (body : Bytes) (n : Nat) : StateM Nat Bytes := fun o =>
  let s := min o body.length
  let stop := min (o + n) body.length
  (slice body s (stop - s), stop)

/-- The fields of `parse_account` in their order. -/
def accountFields (body : Bytes) (login : Nat) (server : String) : StateM Nat Account := do
  let _ ← take body 1
  let _ ← take body 4
  let _ ← take body 4
  let balance ← take body 8
  let equity ← take body 8
  let currency ← take body 64
  let _ ← take body 4
  let _ ← take body 4
  let _ ← take body 256
  let leverage ← take body 2
  let parsedServer ← take body 128
  let _ ← take body 256
  let timezone ← take body 4
  let daylight ← take body 1
  return {
    login
    balance := f64At balance
    equity := if (f64At equity).isNonzero then f64At equity else f64At balance
    currency := fromUtf16Le currency
    server := if fromUtf16Le parsedServer = "" then server else fromUtf16Le parsedServer
    leverage := u16At leverage
    timezoneShiftSeconds := asI32 (u32At timezone)
    daylightMode := (daylight.headD 0).toNat }

def parseAccount (body : Bytes) (login : Nat) (server : String) : Account :=
  (accountFields body login server 0).1

/-! ## Symbols -/

structure Symbol where
  name : String
  id : Nat
  digits : Nat
  point : F64
  tickSize : F64 := .zero
  tickValue : F64 := .zero
  contractSize : F64 := .zero
  minVolume : ℚ := 0
  volumeStep : ℚ := 0
  maxVolume : ℚ := 0
  calcMode : Nat
  baseCurrency : String := ""
  profitCurrency : String := ""
  marginCurrency : String := ""
  tradeMode : Nat := 0
  executionMode : Nat := 0
  fillingFlags : Nat := 0
  stopsLevel : Nat := 0
  freezeLevel : Nat := 0
  full : Bool := false

def SYMBOL_LIST_REC_SIZE : Nat := 526

/-- The point of a symbol of the list. -/
def listPoint (floats : Floats) (digits : Nat) : F64 :=
  if 0 < digits then floats.powi ((-asI32 digits).bmod (2 ^ 32)) else one

/-- One round of the loop in `parse_symbol_list`. -/
def listedSymbol (floats : Floats) (record : Bytes) : Option Symbol :=
  let name := fromUtf16Le (slice record 0 64)
  if name = "" then none
  else
    some
      { name
        digits := u32At (record.drop 192)
        id := u32At (record.drop 196)
        point := listPoint floats (u32At (record.drop 192))
        calcMode := u32At (record.drop 456) }

/-- The records of the symbol list. -/
def listRecords (raw : Bytes) : List Bytes :=
  if raw.length < 4 then []
  else (Stride.chunksExact SYMBOL_LIST_REC_SIZE (raw.drop 4)).take (u32At raw)

def parseSymbolList (floats : Floats) (raw : Bytes) : AList fun _ : String => Symbol :=
  ((listRecords raw).filterMap (listedSymbol floats)).foldl (fun map s => map.insert s.name s) ∅

def SYMBOL_INFO_REC_SIZE : Nat := 3068

/-- The size of the records of `parse_symbol_info`: the one that the reply declares, when the
fields fit. -/
def infoSize (records count : Nat) : Nat :=
  if records % count = 0 ∧ 1896 ≤ records / count then records / count else SYMBOL_INFO_REC_SIZE

/-- One record of `parse_symbol_info`. -/
def symbolInfo (record : Bytes) : Option Symbol :=
  let name := fromUtf16Le (slice record 0 64)
  if name = "" then none
  else
    some
      { name
        id := u32At (record.drop 1412)
        digits := u32At (record.drop 1392)
        point := f64At (record.drop 1396)
        baseCurrency := fromUtf16Le (slice record 1276 32)
        profitCurrency := fromUtf16Le (slice record 1308 32)
        marginCurrency := fromUtf16Le (slice record 1340 32)
        tickValue := f64At (record.drop 1440)
        tickSize := f64At (record.drop 1448)
        contractSize := f64At (record.drop 1456)
        calcMode := u32At (record.drop 1468)
        tradeMode := u32At (record.drop 1800)
        stopsLevel := u32At (record.drop 1804)
        freezeLevel := u32At (record.drop 1808)
        executionMode := u32At (record.drop 1812)
        fillingFlags := u32At (record.drop 1816)
        minVolume := lotsOf (u64At (record.drop 1872))
        maxVolume := lotsOf (u64At (record.drop 1880))
        volumeStep := lotsOf (u64At (record.drop 1888))
        full := true }

/-- The records of `parse_symbol_info`. -/
def infoRecords (body : Bytes) : List Bytes :=
  if body.length < 4 then []
  else if u32At body = 0 then []
  else
    (Stride.chunksExact (infoSize (body.length - 4) (u32At body)) (body.drop 4)).take (u32At body)

def parseSymbolInfo (body : Bytes) : List Symbol := (infoRecords body).filterMap symbolInfo

/-! ## Quotes -/

structure Quote where
  symbol : String
  symbolId : Nat
  bid : F64
  ask : F64
  timeMs : Int
  deriving DecidableEq

def TICK_STATS_REC_SIZE : Nat := 274
def QUOTE_SIZE : Nat := 50

/-- `by_id`: of the symbols with an id, in the order in which the map gives them, the last. -/
def byId (symbols : List Symbol) (id : Nat) : Option Symbol :=
  symbols.reverse.find? fun s => s.id = id

/-- A price of a record: `raw / 10f64.powi(digits as i32)`. -/
def priceOf (floats : Floats) (digits : Nat) (raw : F64) : F64 :=
  floats.div raw (floats.powi (asI32 digits))

/-- `x > 0.0`. -/
def IsPositive (x : F64) : Prop := .finite 0 < x.value

/-- `x <= 0.0`. -/
def IsMissing (x : F64) : Prop := x.value ≤ .finite 0

instance (x : F64) : Decidable (IsPositive x) := inferInstanceAs (Decidable (_ < _))

instance (x : F64) : Decidable (IsMissing x) := inferInstanceAs (Decidable (_ ≤ _))

/-- One record of `parse_tick_stats`. -/
def tickStats (floats : Floats) (symbols : List Symbol) (record : Bytes) : Option Quote :=
  match byId symbols (u32At record) with
  | none => none
  | some s =>
    let bid := priceOf floats s.digits (f64At (record.drop 20))
    let ask := priceOf floats s.digits (f64At (record.drop 44))
    if IsPositive bid ∧ IsPositive ask then
      some
        { symbol := s.name, symbolId := s.id, bid, ask, timeMs := i64At (record.drop 208) }
    else none

def parseTickStats (floats : Floats) (symbols : List Symbol) (body : Bytes) : List Quote :=
  (Stride.chunksExact TICK_STATS_REC_SIZE body).filterMap (tickStats floats symbols)

/-- One round of the loop in `parse_quotes`, at an instant. -/
def quote (floats : Floats) (symbols : List Symbol) (now : Int) (record : Bytes) : Option Quote :=
  match byId symbols (u32At record) with
  | none => none
  | some s =>
    some
      { symbol := s.name
        symbolId := u32At record
        bid := priceOf floats s.digits (f64At (record.drop 12))
        ask := priceOf floats s.digits (f64At (record.drop 20))
        timeMs := now }

/-- `parse_quotes`.  The loop reads the clock for each record. -/
def parseQuotes (floats : Floats) (symbols : List Symbol) (clock : Nat → Int) (body : Bytes) :
    List Quote :=
  (List.range (body.length / QUOTE_SIZE)).filterMap fun i =>
    quote floats symbols (clock i) (slice body (QUOTE_SIZE * i) QUOTE_SIZE)

/-! ## Deals and candles -/

structure Deal where
  ticket : Int
  order : Int
  position : Int
  magic : Int
  symbol : String
  kind : Nat
  entry : Nat
  volume : ℚ
  price : F64
  sl : F64
  tp : F64
  profit : F64
  commission : F64
  swap : F64
  contractSize : F64
  time : Int
  timeMs : Int
  comment : String

def DEAL_REC_SIZE : Nat := 356

/-- The milliseconds of a time and its fraction, before they wrap. -/
def dealTime (record : Bytes) : Int :=
  i64At (record.drop 80) * 1000 + min (u32At (record.drop 340)) 999

/-- One record of `parse_deals`. -/
def parseDeal (record : Bytes) : Deal where
  ticket := i64At record
  order := i64At (record.drop 72)
  time := i64At (record.drop 80)
  timeMs := (dealTime record).bmod (2 ^ 64)
  symbol := fromUtf16Le (slice record 88 64)
  kind := u32At (record.drop 152)
  entry := u32At (record.drop 156)
  price := f64At (record.drop 160)
  sl := f64At (record.drop 176)
  tp := f64At (record.drop 184)
  volume := lotsOf (u64At (record.drop 192))
  profit := f64At (record.drop 200)
  commission := f64At (record.drop 224)
  swap := f64At (record.drop 232)
  magic := i64At (record.drop 240)
  position := i64At (record.drop 248)
  comment := fromUtf16Le (slice record 256 64)
  contractSize := f64At (record.drop 320)

def dealRecords (body : Bytes) : List Bytes :=
  if body.length < 4 then []
  else (Stride.chunksExact DEAL_REC_SIZE (body.drop 4)).take (u32At body)

def parseDeals (body : Bytes) : List Deal := (dealRecords body).map parseDeal

structure Candle where
  time : Int
  open_ : F64
  high : F64
  low : F64
  close : F64
  volume : ℚ

/-- Bytes in one candle. -/
def CANDLE_SIZE : Nat := 48

/-- `x as f64` of an `i64`. -/
def doubleOf (x : Int) : ℚ :=
  if x < 0 then -Rounding.round 53 (-x : ℚ) else Rounding.round 53 (x : ℚ)

/-- One round of the loop in `parse_candles`, over the rest of the body. -/
def parseCandle (rest : Bytes) : Candle where
  time := LittleEndian.decodeInt (slice rest 0 4)
  open_ := f64At (rest.drop 4)
  high := f64At (rest.drop 12)
  low := f64At (rest.drop 20)
  close := f64At (rest.drop 28)
  volume := doubleOf (i64At (rest.drop 36))

def parseCandles (body : Bytes) : List Candle :=
  (List.range (body.length / CANDLE_SIZE)).map fun i => parseCandle (body.drop (CANDLE_SIZE * i))

end Mt5Open.Webterm.Parse
