import Mt5Open.Native.Checked
import Mt5Open.Webterm.Parse

/-!
# Where decoding panics

The decoders of the web terminal with the operations that can panic: slices, indices and
integer arithmetic in a debug build.  A byte string has fewer than `2 ^ 63` bytes, as every
slice has.

Each decoder answers as its plain form does, with three exceptions.  `parse_symbol_list` negates
the digits as an `i32`, `parse_deals` scales a time to milliseconds, and `dial` slices the login
reply without looking at its length.  `decoding_panics_iff` has the exact inputs.
-/

namespace Mt5Open.Webterm.Panics

open Lib Native.Checked Parse
open Trade hiding Quote
open Native (Fault fromUtf16Lossy utf16Chunks)

/-! ## Readers -/

theorem ok_bind {ε α β : Type} (a : α) (f : α → Except ε β) : (Except.ok a >>= f) = f a := rfl

/-- `&bytes[start..]`. -/
def tail (bytes : Bytes) (start : Nat) : Except Fault Bytes := range bytes start bytes.length

/-- A field reader: zero when the slice is too short, else `bytes[..size].try_into().unwrap()`. -/
def number {α : Type} (size : Nat) (zero : α) (read : Bytes → α) (bytes : Bytes) : Except Fault α :=
  if bytes.length < size then .ok zero
  else do
    let front ← range bytes 0 size
    if front.length = size then .ok (read front) else .error .panicked

def u16 : Bytes → Except Fault Nat := number 2 0 LittleEndian.decode

def u32 : Bytes → Except Fault Nat := number 4 0 LittleEndian.decode

def u64 : Bytes → Except Fault Nat := number 8 0 LittleEndian.decode

def i64 : Bytes → Except Fault Int := number 8 0 LittleEndian.decodeInt

def f64 : Bytes → Except Fault F64 := number 8 .zero F64.fromLe

/-- A reader behind some bytes of a record. -/
def field {α : Type} (read : Bytes → Except Fault α) (record : Bytes) (start : Nat) :
    Except Fault α := do
  let rest ← tail record start
  read rest

/-- One unit of `from_utf16_le`. -/
def unit (chunk : Bytes) : Except Fault Nat := do
  let low ← index chunk 0
  let high ← index chunk 1
  return LittleEndian.decode [low, high]

/-- `from_utf16_le`. -/
def fromUtf16 (bytes : Bytes) : Except Fault String := do
  let units ← (Stride.chunksExact 2 bytes).mapM unit
  return .ofList (fromUtf16Lossy (units.takeWhile (· ≠ 0)))

/-- `from_utf16_le(&record[start..stop])`. -/
def text (record : Bytes) (start stop : Nat) : Except Fault String := do
  let bytes ← range record start stop
  fromUtf16 bytes

theorem range_of_le {bytes : Bytes} {start stop : Nat} (hle : start ≤ stop)
    (hstop : stop ≤ bytes.length) :
    range bytes start stop = .ok (slice bytes start (stop - start)) :=
  if_pos ⟨hle, hstop⟩

theorem tail_of_le {bytes : Bytes} {start : Nat} (h : start ≤ bytes.length) :
    tail bytes start = .ok (bytes.drop start) := by
  rw [tail, range_of_le h (Nat.le_refl _), slice, List.take_of_length_le]
  rw [List.length_drop]

theorem number_eq {α : Type} (size : Nat) (zero : α) (read : Bytes → α) (bytes : Bytes) :
    number size zero read bytes =
      .ok (if bytes.length < size then zero else read (bytes.take size)) := by
  unfold number
  split
  · rfl
  · rename_i h
    have hlength : (bytes.take size).length = size := by
      rw [List.length_take]
      omega
    rw [range_of_le (Nat.zero_le _) (by omega)]
    show (if (bytes.take size).length = size then _ else _) = _
    rw [if_pos hlength]
    rfl

theorem u16_eq (bytes : Bytes) : u16 bytes = .ok (u16At bytes) := number_eq 2 _ _ bytes

theorem u32_eq (bytes : Bytes) : u32 bytes = .ok (u32At bytes) := number_eq 4 _ _ bytes

theorem u64_eq (bytes : Bytes) : u64 bytes = .ok (u64At bytes) := number_eq 8 _ _ bytes

theorem i64_eq (bytes : Bytes) : i64 bytes = .ok (i64At bytes) := number_eq 8 _ _ bytes

theorem f64_eq (bytes : Bytes) : f64 bytes = .ok (f64At bytes) := number_eq 8 _ _ bytes

theorem field_of_le {α : Type} {read : Bytes → Except Fault α} {record : Bytes} {start : Nat}
    (h : start ≤ record.length) : field read record start = read (record.drop start) := by
  rw [field, tail_of_le h]
  rfl

theorem mapM_unit (bytes : Bytes) {count : Nat} (h : bytes.length ≤ count) :
    (Stride.walk 2 count bytes).mapM unit = .ok (utf16Chunks bytes) := by
  induction bytes using Native.utf16Chunks.induct generalizing count with
  | case1 low high rest ih =>
    obtain ⟨count, rfl⟩ : ∃ n, count = n + 1 := ⟨count - 1, by simp at h; omega⟩
    have hrest : rest.length ≤ count := by
      simp at h
      omega
    rw [Stride.walk, if_neg (by simp)]
    show (([low, high] :: Stride.walk 2 count rest).mapM unit) = _
    rw [List.mapM_cons, ih hrest]
    rfl
  | case2 bytes hshort =>
    cases bytes with
    | nil =>
      rw [Stride.walk_of_length_lt Nat.zero_lt_two]
      rfl
    | cons low rest =>
      cases rest with
      | nil =>
        rw [Stride.walk_of_length_lt (Nat.lt_succ_self 1)]
        rfl
      | cons high rest => exact absurd rfl (hshort low high rest)

theorem fromUtf16_eq (bytes : Bytes) : fromUtf16 bytes = .ok (fromUtf16Le bytes) := by
  unfold fromUtf16 Stride.chunksExact
  rw [mapM_unit bytes (Nat.le_refl _)]
  rfl

theorem text_of_le {record : Bytes} {start stop : Nat} (hle : start ≤ stop)
    (hstop : stop ≤ record.length) :
    text record start stop = .ok (fromUtf16Le (slice record start (stop - start))) := by
  rw [text, range_of_le hle hstop, ok_bind, fromUtf16_eq]

theorem u32At_lt (bytes : Bytes) : u32At bytes < 2 ^ 32 := by
  unfold u32At
  split
  · decide
  · rename_i h
    have hlength : (bytes.take 4).length = 4 := by
      rw [List.length_take]
      omega
    have hlt := LittleEndian.decode_lt (bytes.take 4)
    rw [hlength] at hlt
    exact hlt

/-! ## Checked integers -/

/-- The result of an operation in `i64`. -/
def asChecked64 (x : Int) : Except Fault Int :=
  if -2 ^ 63 ≤ x ∧ x < 2 ^ 63 then .ok x else .error .panicked

/-- `-x` in `i32`. -/
def negI32 (x : Int) : Except Fault Int := if x = -2 ^ 31 then .error .panicked else .ok (-x)

/-! ## Positions, orders and deals -/

/-- One round of the loop in `parse_positions`. -/
def position (record : Bytes) : Except Fault Position := do
  let ticket ← i64 record
  let time ← field u32 record 16
  let symbol ← text record 24 88
  let side ← field u32 record 88
  let price ← field f64 record 92
  let sl ← field f64 record 108
  let tp ← field f64 record 116
  let volume ← field u64 record 124
  let profit ← field f64 record 132
  let commission ← field f64 record 156
  let swap ← field f64 record 164
  let comment ← text record 188 252
  let magic ← field u64 record 172
  return {
    ticket, magic := asI64 magic, symbol, side, volume := lotsOf volume, price, sl, tp, profit,
    swap, commission, time, comment }

/-- One round of the loop in `parse_orders`. -/
def order (record : Bytes) : Except Fault Order := do
  let ticket ← i64 record
  let magic ← field u64 record 224
  let symbol ← text record 72 136
  let kind ← field u32 record 148
  let volume ← field u32 record 204
  let price ← field f64 record 336
  return {
    ticket, magic := asI64 magic, symbol, kind, volume := lotsOf volume, price, sl := .zero,
    tp := .zero, time := 0 }

/-- One record of `parse_deals`. -/
def deal (record : Bytes) : Except Fault Deal := do
  let time ← field i64 record 80
  let ticket ← i64 record
  let order ← field i64 record 72
  let scaled ← asChecked64 (time * 1000)
  let milliseconds ← field u32 record 340
  let timeMs ← asChecked64 (scaled + min milliseconds 999)
  let symbol ← text record 88 152
  let kind ← field u32 record 152
  let entry ← field u32 record 156
  let price ← field f64 record 160
  let sl ← field f64 record 176
  let tp ← field f64 record 184
  let volume ← field u64 record 192
  let profit ← field f64 record 200
  let commission ← field f64 record 224
  let swap ← field f64 record 232
  let magic ← field i64 record 240
  let position ← field i64 record 248
  let comment ← text record 256 320
  let contractSize ← field f64 record 320
  return {
    ticket, order, time, timeMs, symbol, kind, entry, price, sl, tp, volume := lotsOf volume,
    profit, commission, swap, magic, position, comment, contractSize }

/-! ## Symbols and quotes -/

/-- The point of `parse_symbol_list`. -/
def point (floats : Floats) (digits : Nat) : Except Fault F64 :=
  if 0 < digits then (negI32 (asI32 digits)).map floats.powi else .ok one

/-- One round of the loop in `parse_symbol_list`. -/
def symbolOfList (floats : Floats) (record : Bytes) : Except Fault (Option Symbol) := do
  let name ← text record 0 64
  if name = "" then return none
  else
    let digits ← field u32 record 192
    let point ← point floats digits
    let id ← field u32 record 196
    let calcMode ← field u32 record 456
    return some { name, digits, id, point, calcMode }

def symbolList (floats : Floats) (raw : Bytes) : Except Fault (AList fun _ : String => Symbol) :=
  if raw.length < 4 then .ok ∅
  else do
    let count ← u32 raw
    let rest ← tail raw 4
    let symbols ← ((Stride.chunksExact SYMBOL_LIST_REC_SIZE rest).take count).mapM
      (symbolOfList floats)
    return (symbols.filterMap id).foldl (fun map s => map.insert s.name s) ∅

/-- One record of `parse_symbol_info`. -/
def symbolOfInfo (record : Bytes) : Except Fault (Option Symbol) := do
  let name ← text record 0 64
  if name = "" then return none
  else
    let id ← field u32 record 1412
    let digits ← field u32 record 1392
    let point ← field f64 record 1396
    let baseCurrency ← text record 1276 1308
    let profitCurrency ← text record 1308 1340
    let marginCurrency ← text record 1340 1372
    let tickValue ← field f64 record 1440
    let tickSize ← field f64 record 1448
    let contractSize ← field f64 record 1456
    let calcMode ← field u32 record 1468
    let tradeMode ← field u32 record 1800
    let stopsLevel ← field u32 record 1804
    let freezeLevel ← field u32 record 1808
    let executionMode ← field u32 record 1812
    let fillingFlags ← field u32 record 1816
    let minVolume ← field u64 record 1872
    let maxVolume ← field u64 record 1880
    let volumeStep ← field u64 record 1888
    return some {
      name, id, digits, point, baseCurrency, profitCurrency, marginCurrency, tickValue, tickSize,
      contractSize, calcMode, tradeMode, stopsLevel, freezeLevel, executionMode, fillingFlags,
      minVolume := lotsOf minVolume, maxVolume := lotsOf maxVolume,
      volumeStep := lotsOf volumeStep, full := true }

/-- `a % b` and `a / b`. -/
def divMod (a b : Nat) : Except Fault (Nat × Nat) :=
  if b = 0 then .error .panicked else .ok (a % b, a / b)

/-- `bytes.chunks_exact(size)`. -/
def chunks (size : Nat) (bytes : Bytes) : Except Fault (List Bytes) :=
  if size = 0 then .error .panicked else .ok (Stride.chunksExact size bytes)

def symbolInfos (body : Bytes) : Except Fault (List Symbol) :=
  if body.length < 4 then .ok []
  else do
    let count ← u32 body
    if count = 0 then return []
    else
      let records ← sub body.length 4
      let (rest, declared) ← divMod records count
      let size := if rest = 0 ∧ 1896 ≤ declared then declared else SYMBOL_INFO_REC_SIZE
      let behind ← tail body 4
      let chunks ← chunks size behind
      let symbols ← (chunks.take count).mapM symbolOfInfo
      return symbols.filterMap id

/-- One record of `parse_tick_stats`. -/
def statsOf (floats : Floats) (symbols : List Symbol) (record : Bytes) :
    Except Fault (Option Quote) := do
  let id ← u32 record
  match byId symbols id with
  | none => return none
  | some s =>
    let bid ← field f64 record 20
    let ask ← field f64 record 44
    let bid := priceOf floats s.digits bid
    let ask := priceOf floats s.digits ask
    if IsPositive bid ∧ IsPositive ask then
      let timeMs ← field i64 record 208
      return some { symbol := s.name, symbolId := s.id, bid, ask, timeMs }
    else return none

def allStats (floats : Floats) (symbols : List Symbol) (body : Bytes) :
    Except Fault (List Quote) := do
  let quotes ← (Stride.chunksExact TICK_STATS_REC_SIZE body).mapM (statsOf floats symbols)
  return quotes.filterMap id

/-- Only one number of digits has no negation. -/
theorem point_eq (floats : Floats) {digits : Nat} (h : digits < 2 ^ 32) :
    point floats digits =
      if digits ≠ 2 ^ 31 then .ok (listPoint floats digits) else .error .panicked := by
  unfold point listPoint negI32
  by_cases hpos : 0 < digits
  · rw [if_pos hpos, if_pos hpos]
    have hsigned : asI32 digits = if digits < 2 ^ 31 then (digits : Int) else digits - 2 ^ 32 := by
      unfold asI32
      rw [Int.bmod_def]
      split
      · split
        · omega
        · omega
      · split
        · omega
        · omega
    by_cases hleast : digits = 2 ^ 31
    · rw [if_neg (not_not_intro hleast), hsigned, hleast]
      rfl
    · have hnegated : (-asI32 digits).bmod (2 ^ 32) = -asI32 digits := by
        apply Int.bmod_eq_of_le_mul_two
        · rw [hsigned]
          split <;> omega
        · rw [hsigned]
          split <;> omega
      have hne : asI32 digits ≠ -2 ^ 31 := by
        rw [hsigned]
        split <;> omega
      rw [if_pos hleast, if_neg hne, hnegated]
      rfl
  · rw [if_neg hpos, if_neg hpos, if_pos (by omega)]

/-- A record of the symbol list that is skipped, or whose digits have a negation. -/
def ListFits (record : Bytes) : Prop :=
  fromUtf16Le (slice record 0 64) ≠ "" → u32At (record.drop 192) ≠ 2 ^ 31

instance (record : Bytes) : Decidable (ListFits record) :=
  inferInstanceAs (Decidable (_ → _))

theorem symbolOfList_eq (floats : Floats) {record : Bytes}
    (h : record.length = SYMBOL_LIST_REC_SIZE) :
    symbolOfList floats record =
      if ListFits record then .ok (listedSymbol floats record) else .error .panicked := by
  have h : record.length = 526 := h
  unfold symbolOfList listedSymbol
  simp (disch := omega) only [u32_eq, field_of_le, text_of_le, ok_bind,
    point_eq floats (u32At_lt _)]
  by_cases hname : fromUtf16Le (slice record 0 64) = ""
  · have hfits : ListFits record := fun hnamed => absurd hname hnamed
    rw [if_pos hname, if_pos hfits, if_pos hname]
    rfl
  · rw [if_neg hname, if_neg hname]
    by_cases hdigits : u32At (record.drop 192) ≠ 2 ^ 31
    · have hfits : ListFits record := fun _ => hdigits
      rw [if_pos hdigits, if_pos hfits]
      rfl
    · have hfits : ¬ListFits record := fun hall => hdigits (hall hname)
      rw [if_neg hdigits, if_neg hfits]
      rfl

theorem symbolOfInfo_eq {record : Bytes} (h : 1896 ≤ record.length) :
    symbolOfInfo record = .ok (symbolInfo record) := by
  unfold symbolOfInfo symbolInfo
  simp (disch := omega) only [u32_eq, u64_eq, f64_eq, field_of_le, text_of_le, ok_bind]
  by_cases hname : fromUtf16Le (slice record 0 64) = ""
  · rw [if_pos hname, if_pos hname]
    rfl
  · rw [if_neg hname, if_neg hname]
    rfl

theorem statsOf_eq (floats : Floats) (symbols : List Symbol) {record : Bytes}
    (h : record.length = TICK_STATS_REC_SIZE) :
    statsOf floats symbols record = .ok (tickStats floats symbols record) := by
  have h : record.length = 274 := h
  unfold statsOf tickStats
  rw [u32_eq, ok_bind]
  cases byId symbols (u32At record) with
  | none => rfl
  | some s =>
    simp (disch := omega) only [i64_eq, f64_eq, field_of_le, ok_bind]
    split
    · rfl
    · rfl

/-! ## Loops -/

/-- The loop over `count` records of a size that stops where the body ends. -/
def recordLoop {α : Type} (size : Nat) (read : Bytes → Except Fault α) (body : Bytes) :
    (count o : Nat) → Except Fault (List α)
  | 0, _ => .ok []
  | count + 1, o => do
    let stop ← add o size
    if body.length < stop then return []
    else
      let record ← range body o stop
      let item ← read record
      let items ← recordLoop size read body count stop
      return item :: items

/-- A loop over places of a body, `size` bytes apart, while there are so many left. -/
def readAll {α : Type} (size : Nat) (hsize : 0 < size) (read : Nat → Except Fault (List α))
    (body : Bytes) : Loop (List α × Nat) (Except Fault (List α)) where
  body s :=
    match add s.2 size with
    | .error e => .inr (.error e)
    | .ok stop =>
      if stop ≤ body.length then
        match read s.2 with
        | .error e => .inr (.error e)
        | .ok items => .inl (s.1 ++ items, stop)
      else .inr (.ok s.1)
  measure s := body.length - s.2
  decreases := by
    rintro ⟨items, o⟩ t h
    simp only at h
    split at h
    · cases h
    · rename_i stop hstop
      split at h
      · split at h
        · cases h
        · cases Sum.inl.inj h
          have := add_eq_ok hstop
          simp only
          omega
      · cases h

/-- One round of the loop in `parse_quotes`. -/
def quoteAt (floats : Floats) (symbols : List Symbol) (clock : Nat → Int) (body : Bytes) (p : Nat) :
    Except Fault (List Quote) := do
  let stop ← add p QUOTE_SIZE
  let record ← range body p stop
  let id ← u32 record
  let bid ← field f64 record 12
  let ask ← field f64 record 20
  match byId symbols id with
  | none => return []
  | some s =>
    return [{
      symbol := s.name, symbolId := id, bid := priceOf floats s.digits bid,
      ask := priceOf floats s.digits ask, timeMs := clock (p / QUOTE_SIZE) }]

def quotes (floats : Floats) (symbols : List Symbol) (clock : Nat → Int) (body : Bytes) :
    Except Fault (List Quote) :=
  (readAll QUOTE_SIZE (by decide) (quoteAt floats symbols clock body) body).run ([], 0)

/-- A field at a distance from a place of a body. -/
def fieldAt {α : Type} (read : Bytes → Except Fault α) (body : Bytes) (o distance : Nat) :
    Except Fault α := do
  let start ← add o distance
  field read body start

/-- One round of the loop in `parse_candles`. -/
def candleAt (body : Bytes) (o : Nat) : Except Fault (List Candle) := do
  let stop ← add o 4
  let front ← range body o stop
  let time ← number 4 0 LittleEndian.decodeInt front
  let open_ ← fieldAt f64 body o 4
  let high ← fieldAt f64 body o 12
  let low ← fieldAt f64 body o 20
  let close ← fieldAt f64 body o 28
  let volume ← fieldAt i64 body o 36
  return [{ time, open_, high, low, close, volume := doubleOf volume }]

def candles (body : Bytes) : Except Fault (List Candle) :=
  (readAll CANDLE_SIZE (by decide) (candleAt body) body).run ([], 0)

def positions (body : Bytes) : Except Fault (List Position) :=
  if body.length < 4 then .ok []
  else do
    let count ← u32 body
    recordLoop posSize position body count 4

def orders (body : Bytes) : Except Fault (List Order) :=
  if body.length < 4 then .ok []
  else do
    let count ← u32 body
    let skipped ← mul count posSize
    let o ← add 4 skipped
    let stop ← add o 4
    if body.length < stop then return []
    else
      let count ← field u32 body o
      recordLoop ORDER_REC_SIZE order body count stop

def deals (body : Bytes) : Except Fault (List Deal) :=
  if body.length < 4 then .ok []
  else do
    let count ← u32 body
    let rest ← tail body 4
    ((Stride.chunksExact DEAL_REC_SIZE rest).take count).mapM deal

/-! ## Answers -/

def tradeEvent (body : Bytes) : Except Fault (Option TradeEvent) :=
  let ap := 4 + OP_SIZE
  if body.length < ap + 36 then .ok none
  else do
    let retcode ← field u32 body ap
    let deal ← field i64 body (ap + 4)
    let order ← field i64 body (ap + 12)
    let volume ← field i64 body (ap + 20)
    let price ← field f64 body (ap + 28)
    return some { retcode, deal, order, volume, price }

def response (data : Bytes) : Except Fault (Option Frame) :=
  if data.length < 5 then .ok none
  else do
    let tagLow ← index data 0
    let tagHigh ← index data 1
    let idLow ← index data 2
    let idHigh ← index data 3
    let resCode ← index data 4
    let body ← tail data 5
    return some {
      tag := UInt16.ofNat (LittleEndian.decode [tagLow, tagHigh])
      cmdId := UInt16.ofNat (LittleEndian.decode [idLow, idHigh])
      resCode, body }

/-- `take` of `parse_account`. -/
def takeField (body : Bytes) (n : Nat) : Decoder Fault Nat Bytes := fun o => do
  let s := min o body.length
  let sum ← add o n
  let stop := min sum body.length
  let bytes ← range body s stop
  return (bytes, stop)

/-- The fields of `parse_account` in their order. -/
def account (body : Bytes) (login : Nat) (server : String) : Decoder Fault Nat Account := do
  let _ ← takeField body 1
  let _ ← takeField body 4
  let _ ← takeField body 4
  let balance ← takeField body 8
  let balance ← Decoder.ofResult (f64 balance)
  let equity ← takeField body 8
  let equity ← Decoder.ofResult (f64 equity)
  let currency ← takeField body 64
  let currency ← Decoder.ofResult (fromUtf16 currency)
  let _ ← takeField body 4
  let _ ← takeField body 4
  let _ ← takeField body 256
  let leverage ← takeField body 2
  let leverage ← Decoder.ofResult (u16 leverage)
  let parsedServer ← takeField body 128
  let parsedServer ← Decoder.ofResult (fromUtf16 parsedServer)
  let _ ← takeField body 256
  let timezone ← takeField body 4
  let timezone ← Decoder.ofResult (u32 timezone)
  let daylight ← takeField body 1
  return {
    login, balance, equity := if equity.isNonzero then equity else balance, currency
    server := if parsedServer = "" then server else parsedServer
    leverage, timezoneShiftSeconds := asI32 timezone, daylightMode := (daylight.headD 0).toNat }

/-! ## The handshake -/

def STATIC_KEY : Bytes :=
  [0x02, 0xde, 0x02, 0xa1, 0xa6, 0x5c, 0xc7, 0x94, 0x68, 0x4f, 0xcb, 0xea, 0x1e, 0xcb, 0x0f, 0xd7,
    0x4a, 0xe6, 0x57, 0xe4, 0x36, 0x62, 0xc1, 0x1e, 0xee, 0x88, 0x5d, 0x2f, 0xd6, 0x4f, 0x49, 0x64]

def CMD_LOGIN : UInt16 := 28

/-- An error of `dial`. -/
def refuse {α : Type} (message : String) : Except Fault α := .error (.rejected ⟨message⟩)

section Dial

-- AES-256-CBC under a key of 32 bytes, with the padding checked.
variable (decrypt : Bytes → Bytes → Except String Bytes)

/-- `aes_decrypt`. -/
def aesDecrypt (key ciphertext : Bytes) : Except Fault Bytes :=
  if key.length ≠ 32 then refuse "AES-256 key must be 32 bytes"
  else
    match decrypt key ciphertext with
    | .ok plaintext => .ok plaintext
    | .error e => refuse s!"aes decrypt: {e}"

/-- A reply of the handshake behind its length, which the code does not look at here. -/
def openReply (key raw : Bytes) (bad : String) : Except Fault Frame := do
  let ciphertext ← tail raw 8
  let plaintext ← aesDecrypt decrypt key ciphertext
  let frame ← response plaintext
  match frame with
  | some frame => return frame
  | none => refuse bad

/-- The authentication step of `dial`, with the session key. -/
def authenticate (raw : Bytes) : Except Fault Bytes :=
  if raw.length < 8 then refuse "short auth frame"
  else do
    let frame ← openReply decrypt STATIC_KEY raw "bad auth"
    if frame.resCode ≠ 0 ∨ frame.body.length < 98 then refuse s!"auth code {frame.resCode}"
    else range frame.body 66 98

/-- The login step of `dial`. -/
def logIn (sessionKey raw : Bytes) : Except Fault Unit := do
  let frame ← openReply decrypt sessionKey raw "bad login"
  if frame.cmdId ≠ CMD_LOGIN ∨ frame.resCode ≠ 0 then
    refuse s!"login cmd={frame.cmdId} code={frame.resCode}"
  else return ()

/-- The two steps of `dial` that read replies. -/
def dial (authReply loginReply : Bytes) : Except Fault Bytes := do
  let sessionKey ← authenticate decrypt authReply
  logIn decrypt sessionKey loginReply
  return sessionKey

/-- The authentication reply gets the client to the login step. -/
def Accepted (authReply : Bytes) : Prop :=
  8 ≤ authReply.length ∧ ∃ plaintext frame, decrypt STATIC_KEY (authReply.drop 8) = .ok plaintext ∧
    parseResponse plaintext = some frame ∧ frame.resCode = 0 ∧ 98 ≤ frame.body.length

end Dial

theorem position_eq {record : Bytes} (h : record.length = posSize) :
    position record = .ok (parsePosition record) := by
  have h : record.length = 344 := h
  unfold position
  simp (disch := omega) only [i64_eq, u32_eq, u64_eq, f64_eq, field_of_le, text_of_le, ok_bind]
  rfl

theorem order_eq {record : Bytes} (h : record.length = ORDER_REC_SIZE) :
    order record = .ok (parseOrder record) := by
  have h : record.length = 356 := h
  unfold order
  simp (disch := omega) only [i64_eq, u32_eq, u64_eq, f64_eq, field_of_le, text_of_le, ok_bind]
  rfl

/-- The time of a deal fits. -/
def DealFits (record : Bytes) : Prop :=
  -2 ^ 63 ≤ i64At (record.drop 80) * 1000 ∧ dealTime record < 2 ^ 63

instance (record : Bytes) : Decidable (DealFits record) :=
  inferInstanceAs (Decidable (_ ∧ _))

/-- A product and a sum behind it, when the summand is not negative. -/
theorem asChecked64_add {α : Type} {x y : Int} (hy : 0 ≤ y) (f : Int → Except Fault α) :
    (do
      let scaled ← asChecked64 x
      let sum ← asChecked64 (scaled + y)
      f sum) =
      if -2 ^ 63 ≤ x ∧ x + y < 2 ^ 63 then f (x + y) else .error .panicked := by
  unfold asChecked64
  by_cases hx : -2 ^ 63 ≤ x ∧ x < 2 ^ 63
  · rw [if_pos hx, ok_bind]
    by_cases hsum : -2 ^ 63 ≤ x ∧ x + y < 2 ^ 63
    · rw [if_pos (by omega), if_pos hsum, ok_bind]
    · rw [if_neg (by omega), if_neg hsum]
      rfl
  · rw [if_neg hx, if_neg (by omega)]
    rfl

theorem deal_eq {record : Bytes} (h : record.length = DEAL_REC_SIZE) :
    deal record = if DealFits record then .ok (parseDeal record) else .error .panicked := by
  have h : record.length = 356 := h
  have hpos : (0 : Int) ≤ (min (u32At (record.drop 340)) 999 : Nat) := Int.natCast_nonneg _
  unfold deal
  simp (disch := omega) only [i64_eq, u32_eq, u64_eq, f64_eq, field_of_le, text_of_le, ok_bind]
  rw [asChecked64_add hpos]
  show (if DealFits record then _ else _) = _
  by_cases hfits : DealFits record
  · -- A time that fits does not wrap in the plain form.
    have hwrap : (dealTime record).bmod (2 ^ 64) = dealTime record := by
      have hlow : i64At (record.drop 80) * 1000 ≤ dealTime record := by
        unfold dealTime
        omega
      have hfits := hfits
      unfold DealFits at hfits
      apply Int.bmod_eq_of_le_mul_two
      · omega
      · omega
    rw [if_pos hfits, if_pos hfits, parseDeal, hwrap]
    rfl
  · rw [if_neg hfits, if_neg hfits]

/-- A loop over records that are read without a panic. -/
theorem recordLoop_eq {α : Type} {size : Nat} {read : Bytes → Except Fault α} {f : Bytes → α}
    {body : Bytes} (hbody : body.length < 2 ^ 63) (hsize : size < 2 ^ 63)
    (hread : ∀ record : Bytes, record.length = size → read record = .ok (f record)) (count : Nat)
    {o : Nat} (ho : o ≤ body.length) :
    recordLoop size read body count o = .ok ((recordsAt size body count o).map f) := by
  induction count generalizing o with
  | zero => rfl
  | succ count ih =>
    rw [recordLoop, add_of_lt (by omega), ok_bind, recordsAt]
    by_cases hend : body.length < o + size
    · rw [if_pos hend, if_pos hend]
      rfl
    · have hrange : range body o (o + size) = .ok (slice body o size) := by
        rw [range_of_le (by omega) (by omega), Nat.add_sub_cancel_left]
      rw [if_neg hend, if_neg hend, hrange, ok_bind, hread _ (length_slice (by omega)), ok_bind,
        ih (by omega)]
      rfl

/-- Items that are all read without a panic, or one that is not. -/
theorem mapM_guard {α β : Type} {read : α → Except Fault β} {f : α → β} {p : α → Prop}
    [DecidablePred p] {items : List α}
    (hread : ∀ a ∈ items, read a = if p a then .ok (f a) else .error .panicked) :
    items.mapM read = if ∀ a ∈ items, p a then .ok (items.map f) else .error .panicked := by
  induction items with
  | nil => rfl
  | cons a items ih =>
    have hrest := ih fun b hb => hread b (List.mem_cons_of_mem _ hb)
    rw [List.mapM_cons, hread a List.mem_cons_self]
    by_cases ha : p a
    · rw [if_pos ha, ok_bind, hrest]
      by_cases hall : ∀ b ∈ items, p b
      · rw [if_pos hall, if_pos (List.forall_mem_cons.mpr ⟨ha, hall⟩)]
        rfl
      · rw [if_neg hall, if_neg fun h => hall (List.forall_mem_cons.mp h).2]
        rfl
    · rw [if_neg ha, if_neg fun h => ha (List.forall_mem_cons.mp h).1]
      rfl

theorem length_of_mem_chunks {size count : Nat} (hsize : 0 < size) {bytes record : Bytes}
    (h : record ∈ (Stride.chunksExact size bytes).take count) : record.length = size := by
  rw [Stride.take_chunksExact hsize] at h
  exact Stride.length_of_mem_walk h

/-- A loop over places where everything is read without a panic. -/
theorem readAll_run {α : Type} {size : Nat} (hsize : 0 < size) {body : Bytes}
    (hbody : body.length < 2 ^ 63) (hsmall : size < 2 ^ 63) {read : Nat → Except Fault (List α)}
    {f : Nat → List α} (hread : ∀ o, o + size ≤ body.length → read o = .ok (f o)) (n : Nat)
    (items : List α) {o : Nat} (ho : o ≤ body.length) (hn : (body.length - o) / size = n) :
    (readAll size hsize read body).run (items, o) =
      .ok (items ++ (List.range n).flatMap fun i => f (o + size * i)) := by
  have hadd : add o size = .ok (o + size) := add_of_lt (by omega)
  induction n generalizing items o with
  | zero =>
    have hend : ¬o + size ≤ body.length := by
      intro hle
      have hpos := Nat.div_pos (show size ≤ body.length - o by omega) hsize
      omega
    have hstop : (readAll size hsize read body).body (items, o) = .inr (.ok items) := by
      simp only [readAll, hadd, if_neg hend]
    rw [Loop.run_of_stop _ hstop, List.range_zero, List.flatMap_nil, List.append_nil]
  | succ n ih =>
    have hle : o + size ≤ body.length := by
      by_contra hshort
      rw [Nat.div_eq_of_lt (by omega)] at hn
      cases hn
    have hrest : (body.length - (o + size)) / size = n := by
      have hsplit : body.length - o = body.length - (o + size) + size := by omega
      rw [hsplit, Nat.add_div_right _ hsize] at hn
      exact Nat.succ.inj hn
    have hnext : (readAll size hsize read body).body (items, o) =
        .inl (items ++ f o, o + size) := by
      simp only [readAll, hadd, if_pos hle, hread o hle]
    rw [Loop.run_of_next _ hnext, ih _ hle hrest (add_of_lt (by omega)), List.range_succ_eq_map,
      List.flatMap_cons, List.flatMap_map, List.append_assoc]
    have hplace : ∀ i, o + size * (i + 1) = o + size + size * i := by
      intro i
      rw [Nat.mul_succ]
      omega
    simp only [Nat.mul_zero, Nat.add_zero, Nat.succ_eq_add_one, hplace]

section Body

variable {body : Bytes} (hbody : body.length < 2 ^ 63)

include hbody

theorem positions_eq : positions body = .ok (parsePositions body) := by
  unfold positions parsePositions positionRecords
  by_cases hshort : body.length < 4
  · rw [if_pos hshort, if_pos hshort]
    rfl
  · rw [if_neg hshort, if_neg hshort, u32_eq, ok_bind]
    exact recordLoop_eq hbody (by decide) (fun _ => position_eq) _ (by omega)

theorem orders_eq : orders body = .ok (parseOrders body) := by
  have hskipped : u32At body * posSize < 2 ^ 41 := by
    have hcount := u32At_lt body
    have hsize : u32At body * posSize = u32At body * 344 := rfl
    omega
  unfold orders parseOrders orderRecords
  by_cases hshort : body.length < 4
  · rw [if_pos hshort, if_pos hshort]
    rfl
  · rw [if_neg hshort, if_neg hshort, u32_eq, ok_bind, mul_of_lt (by omega), ok_bind,
      add_of_lt (by omega), ok_bind, add_of_lt (by omega), ok_bind]
    simp only
    by_cases hend : body.length < 4 + u32At body * posSize + 4
    · rw [if_pos hend, if_pos hend]
      rfl
    · rw [if_neg hend, if_neg hend, field_of_le (by omega), u32_eq, ok_bind]
      exact recordLoop_eq hbody (by decide) (fun _ => order_eq) _ (by omega)

omit hbody in
theorem deals_eq : deals body =
    if ∀ record ∈ dealRecords body, DealFits record then .ok (parseDeals body)
    else .error .panicked := by
  unfold deals parseDeals dealRecords
  by_cases hshort : body.length < 4
  · simp [hshort]
  · rw [if_neg hshort, if_neg hshort, u32_eq, ok_bind, tail_of_le (by omega), ok_bind]
    exact mapM_guard fun record hrecord => deal_eq (length_of_mem_chunks (by decide) hrecord)

omit hbody in
theorem symbolList_eq (floats : Floats) : symbolList floats body =
    if ∀ record ∈ listRecords body, ListFits record then .ok (parseSymbolList floats body)
    else .error .panicked := by
  unfold symbolList parseSymbolList listRecords
  by_cases hshort : body.length < 4
  · simp [hshort]
  · rw [if_neg hshort, if_neg hshort, u32_eq, ok_bind, tail_of_le (by omega), ok_bind,
      mapM_guard fun record hrecord =>
        symbolOfList_eq floats (length_of_mem_chunks (by decide) hrecord)]
    split
    · rw [ok_bind, List.filterMap_map]
      rfl
    · rfl

omit hbody in
theorem symbolInfos_eq : symbolInfos body = .ok (parseSymbolInfo body) := by
  unfold symbolInfos parseSymbolInfo infoRecords
  by_cases hshort : body.length < 4
  · rw [if_pos hshort, if_pos hshort]
    rfl
  rw [if_neg hshort, if_neg hshort, u32_eq, ok_bind]
  by_cases hcount : u32At body = 0
  · rw [if_pos hcount, if_pos hcount]
    rfl
  rw [if_neg hcount, if_neg hcount, sub_of_le (by omega), ok_bind, divMod, if_neg hcount, ok_bind]
  -- The size has room for the fields, whichever it is.
  have hsize : 1896 ≤ infoSize (body.length - 4) (u32At body) := by
    unfold infoSize
    split
    · rename_i hdeclared
      exact hdeclared.2
    · decide
  have hchunks : chunks (infoSize (body.length - 4) (u32At body)) (body.drop 4) =
      .ok (Stride.chunksExact (infoSize (body.length - 4) (u32At body)) (body.drop 4)) :=
    if_neg (by omega)
  rw [tail_of_le (by omega)]
  show (chunks (infoSize (body.length - 4) (u32At body)) (body.drop 4) >>= _) = _
  have hread : ∀ record ∈ (Stride.chunksExact (infoSize (body.length - 4) (u32At body))
      (body.drop 4)).take (u32At body), symbolOfInfo record = .ok (symbolInfo record) := by
    intro record hrecord
    apply symbolOfInfo_eq
    rw [length_of_mem_chunks (by omega) hrecord]
    exact hsize
  rw [hchunks, ok_bind, mapM_ok hread, ok_bind, List.filterMap_map]
  rfl

omit hbody in
theorem allStats_eq (floats : Floats) (symbols : List Symbol) :
    allStats floats symbols body = .ok (parseTickStats floats symbols body) := by
  unfold allStats parseTickStats
  have hread : ∀ record ∈ Stride.chunksExact TICK_STATS_REC_SIZE body,
      statsOf floats symbols record = .ok (tickStats floats symbols record) := by
    intro record hrecord
    exact statsOf_eq floats symbols (Stride.length_of_mem_walk hrecord)
  rw [mapM_ok hread, ok_bind, List.filterMap_map]
  rfl

theorem quotes_eq (floats : Floats) (symbols : List Symbol) (clock : Nat → Int) :
    quotes floats symbols clock body = .ok (parseQuotes floats symbols clock body) := by
  have hread : ∀ p, p + QUOTE_SIZE ≤ body.length →
      quoteAt floats symbols clock body p =
        .ok (quote floats symbols (clock (p / QUOTE_SIZE)) (slice body p QUOTE_SIZE)).toList := by
    intro p hp
    have hsize : QUOTE_SIZE = 50 := rfl
    have hlength : (slice body p QUOTE_SIZE).length = 50 := length_slice hp
    have hrange : range body p (p + QUOTE_SIZE) = .ok (slice body p QUOTE_SIZE) := by
      rw [range_of_le (by omega) hp, Nat.add_sub_cancel_left]
    unfold quoteAt quote
    rw [add_of_lt (by omega), ok_bind, hrange]
    simp (disch := omega) only [u32_eq, f64_eq, field_of_le, ok_bind]
    cases byId symbols (u32At (slice body p QUOTE_SIZE)) with
    | none => rfl
    | some s => rfl
  unfold quotes parseQuotes
  rw [readAll_run _ hbody (by decide) hread _ [] (Nat.zero_le _) rfl, List.nil_append,
    Nat.sub_zero, List.filterMap_eq_flatMap_toList]
  have hindex : ∀ i, QUOTE_SIZE * i / QUOTE_SIZE = i :=
    fun i => Nat.mul_div_cancel_left i (by decide)
  simp only [Nat.zero_add, hindex]

theorem candles_eq : candles body = .ok (parseCandles body) := by
  have hread : ∀ o, o + CANDLE_SIZE ≤ body.length →
      candleAt body o = .ok [parseCandle (body.drop o)] := by
    intro o ho
    have hsize : CANDLE_SIZE = 48 := rfl
    have hrange : range body o (o + 4) = .ok (slice body o 4) := by
      rw [range_of_le (by omega) (by omega), Nat.add_sub_cancel_left]
    have hlength : (slice body o 4).length = 4 := length_slice (by omega)
    have htime : number 4 0 LittleEndian.decodeInt (slice body o 4) =
        .ok (LittleEndian.decodeInt (slice body o 4)) := by
      rw [number_eq, if_neg (by omega), List.take_of_length_le (by omega)]
    have hfield : ∀ {α : Type} (read : Bytes → Except Fault α) distance, distance ≤ 48 →
        fieldAt read body o distance = read ((body.drop o).drop distance) := by
      intro α read distance hdistance
      rw [fieldAt, add_of_lt (by omega), ok_bind, field_of_le (by omega), List.drop_drop]
    unfold candleAt
    rw [add_of_lt (by omega), ok_bind, hrange, ok_bind, htime, ok_bind]
    simp (disch := decide) only [hfield, f64_eq, i64_eq, ok_bind]
    rfl
  unfold candles parseCandles
  rw [readAll_run _ hbody (by decide) hread _ [] (Nat.zero_le _) rfl, List.nil_append,
    Nat.sub_zero, ← List.map_eq_flatMap]
  simp only [Nat.zero_add]

end Body

theorem tradeEvent_eq (body : Bytes) : tradeEvent body = .ok (parseTradeEvent body) := by
  unfold tradeEvent parseTradeEvent
  by_cases hshort : body.length < 4 + OP_SIZE + 36
  · simp [hshort]
  · simp only [if_neg hshort]
    simp (disch := omega) only [u32_eq, i64_eq, f64_eq, field_of_le, ok_bind]
    rfl

theorem response_eq (data : Bytes) : response data = .ok (parseResponse data) := by
  unfold response parseResponse
  by_cases hshort : data.length < 5
  · rw [if_pos hshort, if_pos hshort]
  · rw [if_neg hshort, if_neg hshort, tail_of_le (by omega)]
    match data, hshort with
    | _ :: _ :: _ :: _ :: _ :: _, _ => rfl
    | [], hshort => simp at hshort
    | [_], hshort => simp at hshort
    | [_, _], hshort => simp at hshort
    | [_, _, _], hshort => simp at hshort
    | [_, _, _, _], hshort => simp at hshort

/-- The first decoder answers as the second one, from every place of the body. -/
def Follows {α : Type} (body : Bytes) (x : Decoder Fault Nat α) (y : StateM Nat α) : Prop :=
  ∀ o, o ≤ body.length → x o = .ok (y o) ∧ (y o).2 ≤ body.length

namespace Follows

variable {α β : Type} {body : Bytes} {x : Decoder Fault Nat α} {y : StateM Nat α}
  {f : α → Decoder Fault Nat β} {g : α → StateM Nat β}

theorem bind (hx : Follows body x y) (hf : ∀ a, Follows body (f a) (g a)) :
    Follows body (x >>= f) (y >>= g) := by
  intro o ho
  obtain ⟨hrun, hstop⟩ := hx o ho
  rw [Decoder.bind_of_ok hrun]
  exact hf _ _ hstop

theorem checked {r : Except Fault α} {a : α} {z : StateM Nat β} (hr : r = .ok a)
    (h : Follows body (f a) z) : Follows body (Decoder.ofResult r >>= f) z := by
  rw [hr]
  exact h

theorem pure (a : α) : Follows body (pure a) (pure a) := fun _ ho => ⟨rfl, ho⟩

theorem take (hbody : body.length < 2 ^ 63) {n : Nat} (hn : n < 2 ^ 63) :
    Follows body (takeField body n) (Parse.take body n) := by
  intro o ho
  have hstop : min (o + n) body.length ≤ body.length := Nat.min_le_right _ _
  have hstart : min o body.length ≤ min (o + n) body.length := by omega
  refine ⟨?_, hstop⟩
  unfold takeField
  rw [add_of_lt (by omega), ok_bind]
  show (range body (min o body.length) (min (o + n) body.length) >>= _) = _
  rw [range_of_le hstart hstop]
  rfl

end Follows

theorem account_eq {body : Bytes} (hbody : body.length < 2 ^ 63) (login : Nat) (server : String) :
    (account body login server 0).map Prod.fst = .ok (parseAccount body login server) := by
  have htake : ∀ n, n < 2 ^ 63 → Follows body (takeField body n) (Parse.take body n) :=
    fun n hn => .take hbody hn
  have hfields : Follows body (account body login server) (accountFields body login server) := by
    unfold account accountFields
    refine (htake 1 (by decide)).bind fun _ => (htake 4 (by decide)).bind fun _ =>
      (htake 4 (by decide)).bind fun _ => (htake 8 (by decide)).bind fun balance => ?_
    refine .checked (f64_eq balance) ((htake 8 (by decide)).bind fun equity => ?_)
    refine .checked (f64_eq equity) ((htake 64 (by decide)).bind fun currency => ?_)
    refine .checked (fromUtf16_eq currency) ((htake 4 (by decide)).bind fun _ =>
      (htake 4 (by decide)).bind fun _ => (htake 256 (by decide)).bind fun _ =>
      (htake 2 (by decide)).bind fun leverage => ?_)
    refine .checked (u16_eq leverage) ((htake 128 (by decide)).bind fun parsedServer => ?_)
    refine .checked (fromUtf16_eq parsedServer) ((htake 256 (by decide)).bind fun _ =>
      (htake 4 (by decide)).bind fun timezone => ?_)
    exact .checked (u32_eq timezone) ((htake 1 (by decide)).bind fun _ => .pure _)
  rw [(hfields 0 (Nat.zero_le _)).1]
  rfl

section Dial

variable (decrypt : Bytes → Bytes → Except String Bytes)

theorem aesDecrypt_ne_panicked (key ciphertext : Bytes) :
    aesDecrypt decrypt key ciphertext ≠ .error .panicked := by
  unfold aesDecrypt
  split
  · exact nofun
  · split
    · exact nofun
    · exact nofun

/-- The slice decides whether a reply of the handshake panics. -/
theorem openReply_panics_iff (key raw : Bytes) (bad : String) :
    openReply decrypt key raw bad = .error .panicked ↔ raw.length < 8 := by
  unfold openReply
  by_cases hshort : raw.length < 8
  · have htail : tail raw 8 = .error .panicked := if_neg (by omega)
    rw [htail]
    exact iff_of_true rfl hshort
  · rw [tail_of_le (by omega), ok_bind]
    refine iff_of_false ?_ hshort
    have hdecrypt := aesDecrypt_ne_panicked decrypt key (raw.drop 8)
    cases hplain : aesDecrypt decrypt key (raw.drop 8) with
    | error e =>
      rw [hplain] at hdecrypt
      intro h
      have herror : (Except.error e : Except Fault Frame) = .error .panicked := h
      cases herror
      exact hdecrypt rfl
    | ok plaintext =>
      rw [ok_bind, response_eq, ok_bind]
      split
      · exact nofun
      · exact nofun

/-- The authentication step accepts its reply or refuses it, and it never panics. -/
theorem authenticate_cases (raw : Bytes) :
    (Accepted decrypt raw ∧ ∃ key, authenticate decrypt raw = .ok key) ∨
      (¬Accepted decrypt raw ∧ ∃ e, authenticate decrypt raw = .error (.rejected e)) := by
  unfold authenticate
  by_cases hshort : raw.length < 8
  · rw [if_pos hshort]
    exact Or.inr ⟨fun h => absurd h.1 (by omega), _, rfl⟩
  have hkey : ¬STATIC_KEY.length ≠ 32 := not_not_intro rfl
  rw [if_neg hshort, openReply, tail_of_le (by omega), ok_bind, aesDecrypt, if_neg hkey]
  cases hplain : decrypt STATIC_KEY (raw.drop 8) with
  | error e =>
    refine Or.inr ⟨?_, _, rfl⟩
    intro h
    obtain ⟨-, plaintext, frame, hok, -⟩ := h
    rw [hplain] at hok
    cases hok
  | ok plaintext =>
    simp only [ok_bind, response_eq]
    cases hframe : parseResponse plaintext with
    | none =>
      refine Or.inr ⟨?_, _, rfl⟩
      intro h
      obtain ⟨-, other, frame, hok, hsome, -⟩ := h
      rw [hplain] at hok
      cases hok
      rw [hframe] at hsome
      cases hsome
    | some frame =>
      by_cases hbad : frame.resCode ≠ 0 ∨ frame.body.length < 98
      · refine Or.inr ⟨?_, ⟨s!"auth code {frame.resCode}"⟩, ?_⟩
        · intro h
          obtain ⟨-, other, another, hok, hsome, hcode, hlength⟩ := h
          rw [hplain] at hok
          cases hok
          rw [hframe] at hsome
          cases hsome
          rcases hbad with hbad | hbad
          · exact hbad hcode
          · omega
        · exact if_pos hbad
      · obtain ⟨hcode, hlength⟩ := not_or.mp hbad
        refine Or.inl ⟨⟨by omega, plaintext, frame, hplain, hframe, not_not.mp hcode, by omega⟩,
          slice frame.body 66 (98 - 66), ?_⟩
        refine (if_neg hbad).trans ?_
        exact range_of_le (by decide) (by omega)

theorem logIn_panics_iff (key raw : Bytes) :
    logIn decrypt key raw = .error .panicked ↔ raw.length < 8 := by
  rw [← openReply_panics_iff decrypt key raw "bad login"]
  unfold logIn
  cases openReply decrypt key raw "bad login" with
  | error e =>
    exact ⟨fun h => congrArg _ (Except.error.inj h), fun h => congrArg _ (Except.error.inj h)⟩
  | ok frame =>
    refine iff_of_false ?_ nofun
    rw [ok_bind]
    split
    · exact nofun
    · exact nofun

/-- The handshake panics on a login reply without a header. -/
theorem dial_panics_iff (authReply loginReply : Bytes) :
    dial decrypt authReply loginReply = .error .panicked ↔
      Accepted decrypt authReply ∧ loginReply.length < 8 := by
  unfold dial
  rcases authenticate_cases decrypt authReply with ⟨hok, key, hkey⟩ | ⟨hno, e, he⟩
  · rw [hkey, ok_bind, ← logIn_panics_iff decrypt key loginReply, and_iff_right hok]
    cases logIn decrypt key loginReply with
    | error e =>
    exact ⟨fun h => congrArg _ (Except.error.inj h), fun h => congrArg _ (Except.error.inj h)⟩
    | ok u => exact iff_of_false nofun nofun
  · rw [he]
    exact iff_of_false nofun fun h => hno h.1

end Dial

theorem ite_panics_iff {α : Type} {p : Prop} [Decidable p] {a : α} :
    (if p then .ok a else .error .panicked : Except Fault α) = .error .panicked ↔ ¬p := by
  by_cases h : p
  · rw [if_pos h]
    exact iff_of_false nofun (not_not_intro h)
  · rw [if_neg h]
    exact iff_of_true rfl h

/-- Nine of the decoders never panic.  `parse_symbol_list` panics on a record with a name and
`2 ^ 31` digits, `parse_deals` on a record whose time in milliseconds leaves 64 bits, and the
handshake on a login reply without a header. -/
theorem decoding_panics_iff {body : Bytes} (hbody : body.length < 2 ^ 63) (floats : Floats)
    (symbols : List Symbol) (clock : Nat → Int) (login : Nat) (server : String) :
    (account body login server 0 ≠ .error .panicked ∧ symbolInfos body ≠ .error .panicked ∧
        allStats floats symbols body ≠ .error .panicked ∧
        quotes floats symbols clock body ≠ .error .panicked ∧
        positions body ≠ .error .panicked ∧ orders body ≠ .error .panicked ∧
        candles body ≠ .error .panicked ∧ tradeEvent body ≠ .error .panicked ∧
        response body ≠ .error .panicked) ∧
      (symbolList floats body ≠ .error .panicked ↔ ∀ record ∈ listRecords body, ListFits record) ∧
      (deals body ≠ .error .panicked ↔ ∀ record ∈ dealRecords body, DealFits record) ∧
      ∀ decrypt authReply loginReply, dial decrypt authReply loginReply ≠ .error .panicked ↔
        (Accepted decrypt authReply → 8 ≤ loginReply.length) := by
  refine ⟨⟨?_, ?_, ?_, ?_, ?_, ?_, ?_, ?_, ?_⟩, ?_, ?_, ?_⟩
  · intro h
    have haccount := account_eq hbody login server
    rw [h] at haccount
    cases haccount
  · rw [symbolInfos_eq]
    exact nofun
  · rw [allStats_eq]
    exact nofun
  · rw [quotes_eq hbody]
    exact nofun
  · rw [positions_eq hbody]
    exact nofun
  · rw [orders_eq hbody]
    exact nofun
  · rw [candles_eq hbody]
    exact nofun
  · rw [tradeEvent_eq]
    exact nofun
  · rw [response_eq]
    exact nofun
  · rw [symbolList_eq, Ne, ite_panics_iff, not_not]
  · rw [deals_eq, Ne, ite_panics_iff, not_not]
  · intro decrypt authReply loginReply
    rw [Ne, dial_panics_iff, not_and, Nat.not_lt]

/-- A deal of the time zero with 250 milliseconds. -/
def earlyDeal : Bytes :=
  LittleEndian.encode 4 1 ++ (List.replicate 340 0 ++ LittleEndian.encode 4 250 ++
    List.replicate 12 0)

/-- The reply is read as deals and as orders, and as a symbol list. -/
theorem decoding_panics_iff_sample :
    earlyDeal.length < 2 ^ 63 ∧ deals earlyDeal ≠ .error .panicked ∧
      orders earlyDeal ≠ .error .panicked ∧
      symbolList ⟨fun _ => one, fun a _ => a⟩ earlyDeal ≠ .error .panicked := by
  have hlength : earlyDeal.length < 2 ^ 63 := by decide +kernel
  obtain ⟨⟨-, -, -, -, -, horders, -, -, -⟩, hlist, hdeals, -⟩ :=
    decoding_panics_iff hlength ⟨fun _ => one, fun a _ => a⟩ [] (fun _ => 0) 0 ""
  exact ⟨hlength, hdeals.mpr (by decide +kernel), horders, hlist.mpr (by decide +kernel)⟩

/-- A deal of the time `2 ^ 63 - 1`. -/
def lateDeal : Bytes :=
  LittleEndian.encode 4 1 ++ (List.replicate 80 0 ++ LittleEndian.encode 8 (2 ^ 63 - 1) ++
    List.replicate 268 0)

/-- A symbol `A` with `2 ^ 31` digits. -/
def deepSymbol : Bytes :=
  LittleEndian.encode 4 1 ++ (0x41 :: List.replicate 191 0 ++ LittleEndian.encode 4 (2 ^ 31) ++
    List.replicate 330 0)

/-- A time that cannot be scaled, digits that cannot be negated, and an empty login reply. -/
theorem decoding_panics_run :
    deals lateDeal = .error .panicked ∧
      (∀ floats, symbolList floats deepSymbol = .error .panicked) ∧
      ∀ decrypt authReply, Accepted decrypt authReply →
        dial decrypt authReply [] = .error .panicked := by
  refine ⟨?_, ?_, ?_⟩
  · rw [deals_eq]
    exact if_neg (by decide +kernel)
  · intro floats
    rw [symbolList_eq]
    exact if_neg (by decide +kernel)
  · intro decrypt authReply haccepted
    exact (dial_panics_iff decrypt authReply []).mpr ⟨haccepted, by decide⟩

end Mt5Open.Webterm.Panics
