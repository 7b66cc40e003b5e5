import Mt5Open.Native.Reader
import Mathlib.Data.Vector.Defs

/-!
# Fixed broker records

A record is a byte string of a fixed size, and its fields stand at fixed
offsets.  A read of a field carries the proof that the field is inside the record.
Text fields are UTF-16LE and end at the first zero unit.
-/

namespace Mt5Open.Native

open Lib

/-! ## UTF-16 -/

/-- `String::from_utf16_lossy`: a surrogate without its partner is replaced. -/
def fromUtf16Lossy : List Nat → List Char
  | [] => []
  | [unit] =>
    if 0xD800 ≤ unit ∧ unit < 0xE000 then ['\uFFFD'] else [Char.ofNat unit]
  | unit :: next :: rest =>
    if 0xD800 ≤ unit ∧ unit < 0xDC00 then
      if 0xDC00 ≤ next ∧ next < 0xE000 then
        Char.ofNat (0x10000 + (unit - 0xD800) * 0x400 + (next - 0xDC00)) :: fromUtf16Lossy rest
      else '\uFFFD' :: fromUtf16Lossy (next :: rest)
    else if 0xDC00 ≤ unit ∧ unit < 0xE000 then '\uFFFD' :: fromUtf16Lossy (next :: rest)
    else Char.ofNat unit :: fromUtf16Lossy (next :: rest)

/-- The UTF-16 units of a character. -/
def utf16Units (c : Char) : List Nat :=
  if c.toNat < 0x10000 then [c.toNat]
  else [0xD800 + (c.toNat - 0x10000) / 0x400, 0xDC00 + (c.toNat - 0x10000) % 0x400]

/-- `s.encode_utf16().flat_map(|u| u.to_le_bytes())`. -/
def utf16Bytes (s : String) : Bytes := (s.toList.flatMap utf16Units).flatMap (LittleEndian.encode 2)

/-- `chunks_exact(2)`, each read as a little-endian unit. -/
def utf16Chunks : Bytes → List Nat
  | low :: high :: rest => LittleEndian.decode [low, high] :: utf16Chunks rest
  | _ => []

/-! ## The record -/

/-- A byte string of the size that its record type has. -/
structure Record (size : Nat) where
  bytes : Bytes
  length_bytes : bytes.length = size

namespace Record

variable {size : Nat}

/-- `Record::new`. -/
def new (bytes : Bytes) (size : Nat) : Result (Record size) :=
  if h : bytes.length = size then .ok ⟨bytes, h⟩
  else reject s!"record length {bytes.length}, expected {size}"

/-- The bytes of a field. -/
def field (r : Record size) (offset length : Nat) (h : offset + length ≤ size) : Bytes :=
  part r.bytes offset length (r.length_bytes.symm ▸ h)

def i32 (r : Record size) (offset : Nat) (h : offset + 4 ≤ size := by decide) : Int :=
  LittleEndian.decodeInt (r.field offset 4 h)

def u64 (r : Record size) (offset : Nat) (h : offset + 8 ≤ size := by decide) : Nat :=
  LittleEndian.decode (r.field offset 8 h)

def i64 (r : Record size) (offset : Nat) (h : offset + 8 ≤ size := by decide) : Int :=
  LittleEndian.decodeInt (r.field offset 8 h)

def f64 (r : Record size) (offset : Nat) (h : offset + 8 ≤ size := by decide) : F64 :=
  F64.fromLe (r.field offset 8 h)

def text (r : Record size) (offset length : Nat) (h : offset + length ≤ size := by decide) :
    String :=
  .ofList (fromUtf16Lossy ((utf16Chunks (r.field offset length h)).takeWhile (· ≠ 0)))

end Record

/-! ## The record types -/

structure AccountTerms where
  currency : String
  currencyDigits : Int
  accountingMethod : Int
  marginMode : Int
  deriving DecidableEq, Repr

/-- `AccountTerms::parse`. -/
def AccountTerms.parse (bytes : Bytes) : Result AccountTerms := do
  let r ← Record.new bytes 4228
  return {
    currency := r.text 3080 64
    currencyDigits := r.i32 3144
    accountingMethod := r.i32 3552
    marginMode := r.i32 3564 }

structure Symbol where
  id : Int
  name : String
  digits : Int
  point : F64
  contractSize : F64
  tickSize : F64
  tickValue : F64
  profitCurrency : String
  baseCurrency : String
  marginCurrency : String
  calculationMode : Int
  executionMode : Int
  tradeMode : Int
  fillingFlags : Int
  orderFlags : Int
  volumeMin : Nat
  volumeMax : Nat
  volumeStep : Nat
  stopsLevel : Int
  freezeLevel : Int
  initialMargin : F64
  maintenanceMargin : F64
  marginRates : Vector F64 8
  maintenanceMarginRates : Vector F64 8
  expirationFlags : Int
  marginFlags : Nat
  hedgedMargin : F64
  deriving DecidableEq, Repr

/-- `Symbol::parse`. -/
def Symbol.parse (info group : Bytes) : Result Symbol := do
  let r ← Record.new info 1952
  let g ← Record.new group 1228
  let digits := r.i32 1424
  if ¬(0 ≤ digits ∧ digits ≤ 12) then reject "invalid symbol digits"
  else return {
    id := r.i32 1444
    name := r.text 8 64
    digits
    point := r.f64 1428
    contractSize := r.f64 1648
    tickSize := r.f64 1640
    tickValue := r.f64 1632
    baseCurrency := r.text 1288 32
    profitCurrency := r.text 1320 32
    marginCurrency := r.text 1352 32
    calculationMode := r.i32 1660
    executionMode := g.i32 316
    tradeMode := g.i32 304
    fillingFlags := g.i32 320
    orderFlags := g.i32 328
    volumeMin := g.u64 744
    volumeMax := g.u64 752
    volumeStep := g.u64 760
    stopsLevel := g.i32 308
    freezeLevel := g.i32 312
    initialMargin := g.f64 836
    maintenanceMargin := g.f64 844
    marginRates := Vector.ofFn fun i : Fin 8 => g.f64 (852 + 8 * i) (by omega)
    maintenanceMarginRates := Vector.ofFn fun i : Fin 8 => g.f64 (916 + 8 * i) (by omega)
    expirationFlags := g.i32 324
    marginFlags := (g.i32 832 % 2 ^ 32).toNat
    hedgedMargin := g.f64 988 }

structure Order where
  ticket : Nat
  symbol : String
  kind : Int
  state : Int
  time : Int
  historyStamp : Nat
  timeDone : Int
  expiration : Int
  price : F64
  stopLimit : F64
  sl : F64
  tp : F64
  volume : Nat
  volumeInitial : Nat
  magic : Int
  comment : String
  deriving DecidableEq, Repr

/-- `Order::parse`. -/
def Order.parse (bytes : Bytes) : Result Order := do
  let r ← Record.new bytes 636
  return {
    ticket := r.u64 0
    symbol := r.text 88 64
    kind := r.i32 184
    state := r.i32 268
    time := r.i64 160
    historyStamp := r.u64 152
    timeDone := r.i64 176
    expiration := r.i64 168
    price := r.f64 212
    stopLimit := r.f64 220
    sl := r.f64 236
    tp := r.f64 244
    volume := r.u64 260
    volumeInitial := r.u64 252
    magic := r.i64 272
    comment := r.text 288 64 }

/-- The same record carries positions in synchronization and executions in
history.  Its enclosing message determines which meaning applies. -/
structure Deal where
  ticket : Nat
  order : Nat
  position : Nat
  symbol : String
  kind : Int
  entry : Int
  time : Int
  timeMs : Int
  priceOpen : F64
  price : F64
  sl : F64
  tp : F64
  volume : Nat
  profit : F64
  commission : F64
  swap : F64
  magic : Int
  comment : String
  profitRate : F64
  marginRate : F64
  contractSize : F64
  moneyDigits : Int
  deriving DecidableEq, Repr

/-- `Deal::parse`. -/
def Deal.parse (bytes : Bytes) : Result Deal := do
  let r ← Record.new bytes 672
  return {
    ticket := r.u64 0
    order := r.u64 88
    position := r.u64 288
    symbol := r.text 120 64
    kind := r.i32 184
    entry := r.i32 188
    time := r.i64 104
    timeMs := r.i64 548
    priceOpen := r.f64 192
    price := r.f64 200
    sl := r.f64 208
    tp := r.f64 216
    volume := r.u64 224
    profit := r.f64 232
    commission := r.f64 256
    swap := r.f64 272
    magic := r.i64 280
    comment := r.text 296 64
    profitRate := r.f64 240
    marginRate := r.f64 248
    contractSize := r.f64 360
    moneyDigits := r.i32 372 }

end Mt5Open.Native
