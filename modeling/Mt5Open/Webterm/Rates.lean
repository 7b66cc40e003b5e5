import Mt5Open.Lib.Pages
import Mt5Open.Native.Utf16
import Mt5Open.Webterm.Parse

/-!
# Candles of the web terminal

`Session::history_latest` asks for a window of candles on the clock of the server and keeps the
last ones of the answer.  A chart loads the latest candles and then scrolls back: each page ends
before the first candle that is shown.

The server here reads a request as it stands on the wire and answers with the records that it
holds in the window.  Whether the end of a window belongs to it is not documented, and
`scroll_back` holds either way.
-/

namespace Mt5Open.Webterm.Rates

open Lib Native Parse Trade

/-! ## Requests -/

/-- An `i64` wraps in a release build. -/
def wrap (x : Int) : Int := x.bmod (2 ^ 64)

/-- `tf_wire`. -/
def tfWire (tf : String) : Nat :=
  if tf = "M1" then 1
  else if tf = "M5" then 5
  else if tf = "M15" then 15
  else if tf = "M30" then 30
  else if tf = "H1" then 16385
  else if tf = "H4" then 16388
  else if tf = "D1" then 16408
  else 5

/-- The seconds of a candle in `rates_window`. -/
def tfSeconds (tf : String) : Int :=
  if tf = "M1" then 60
  else if tf = "M5" then 300
  else if tf = "M15" then 900
  else if tf = "M30" then 1800
  else if tf = "H1" then 3600
  else if tf = "H4" then 14400
  else if tf = "D1" then 86400
  else 300

def ratesReqChunks (symbol tf : String) (fromSec toSec : Int) : List Bytes :=
  [utf16Le symbol 64,
    LittleEndian.encode 2 (tfWire tf),
    LittleEndian.encodeInt 4 fromSec,
    LittleEndian.encodeInt 4 toSec]

/-- `pack_rates_req`. -/
def packRatesReq (symbol tf : String) (fromSec toSec : Int) : Bytes :=
  (ratesReqChunks symbol tf fromSec toSec).flatten

/-- `t.clamp(0, i32::MAX as i64) as i32`. -/
def clampTime (t : Int) : Int := max 0 (min t (2 ^ 31 - 1))

/-- `Client::candles_between`, over the bodies that the answers to `CMD_RATES` have. -/
def candlesBetween (rates : Bytes → Except Request.Error Bytes) (symbol tf : String)
    (start stop : Int) : Except Request.Error (List Candle) := do
  let body ← rates (packRatesReq symbol tf (clampTime start) (clampTime stop))
  return parseCandles body

/-- `rates_window`. -/
def ratesWindow (tf : String) (count : Nat) (before : Option Int) (now : Int) : Int × Int :=
  let span := wrap (wrap (asI64 count + 10) * tfSeconds tf)
  match before with
  -- The latest candles: the window charts have always loaded with.
  | none => (wrap (now - span), now)
  | some stop => (wrap (wrap (stop - wrap (span * 2)) - 3 * 86400), stop)

/-- The candle with its time in UTC. -/
def toUtc (shift : Int) (r : Candle) : Candle := { r with time := wrap (r.time - shift) }

/-- `Session::history_latest`, on a connection with this time shift. -/
def historyLatest (rates : Bytes → Except Request.Error Bytes) (shift now : Int)
    (symbol tf : String) (count : Nat) (before : Option Int) :
    Except Ticket.SessionError (List Candle) := do
  let range := ratesWindow tf count (before.map fun b => wrap (b + shift)) (wrap (now + shift))
  let rows ← orOther (candlesBetween rates symbol tf range.1 range.2)
  let rows := rows.map (toUtc shift)
  let rows := match before with
    | some b => rows.filter fun r => r.time < b
    | none => rows
  return if count < rows.length then rows.drop (rows.length - count) else rows

/-- `Session::history`. -/
def history (rates : Bytes → Except Request.Error Bytes) (shift : Int) (symbol tf : String)
    (seconds start stop : Int) : Except Ticket.SessionError (List Candle) := do
  let start := max start (wrap (stop - wrap (max seconds 1 * 5000)))
  let rows ← orOther (candlesBetween rates symbol tf (wrap (start + shift)) (wrap (stop + shift)))
  return (rows.map (toUtc shift)).filter fun r => start ≤ r.time ∧ r.time < stop

/-! ## The server -/

/-- A record that a server holds, with a time that its clock can have. -/
structure Stored where
  bytes : Bytes
  length_bytes : bytes.length = CANDLE_SIZE
  time_nonneg : 0 ≤ (parseCandle bytes).time
  time_lt : (parseCandle bytes).time < 2 ^ 31 - 1

def Stored.candle (r : Stored) : Candle := parseCandle r.bytes

/-- The candles of a server, by symbol and timeframe. -/
structure Server where
  stored : String → Nat → List Stored
  sorted : ∀ symbol tf, (stored symbol tf).Pairwise fun a b => a.candle.time < b.candle.time
  /-- The end of a window belongs to it. -/
  inclusive : Bool

/-- A request as the server reads it. -/
structure RatesRequest where
  symbol : String
  tf : Nat
  start : Int
  stop : Int

def readRates (payload : Bytes) : RatesRequest where
  symbol := fromUtf16Le (slice payload 0 64)
  tf := LittleEndian.decode (slice payload 64 2)
  start := LittleEndian.decodeInt (slice payload 66 4)
  stop := LittleEndian.decodeInt (slice payload 70 4)

/-- The record is in the window that was asked for. -/
def Server.Serves (server : Server) (request : RatesRequest) (r : Stored) : Prop :=
  request.start ≤ r.candle.time ∧
    (r.candle.time < request.stop ∨ (server.inclusive ∧ r.candle.time = request.stop))

instance (server : Server) (request : RatesRequest) : DecidablePred (server.Serves request) :=
  fun _ => inferInstanceAs (Decidable (_ ∧ _))

def Server.answer (server : Server) (payload : Bytes) : Bytes :=
  let request := readRates payload
  ((server.stored request.symbol request.tf).filter (server.Serves request)).flatMap Stored.bytes

/-- What the server holds for a chart, in UTC. -/
def Server.held (server : Server) (shift : Int) (symbol tf : String) : List Candle :=
  (server.stored symbol (tfWire tf)).map fun r => toUtc shift r.candle

/-! ## The wire -/

/-- The symbol fits its field, and it has no NUL. -/
def FitsSymbol (symbol : String) : Prop :=
  '\x00' ∉ symbol.toList ∧ (symbol.toList.flatMap utf16Units).length ≤ 32

theorem fromUtf16Le_utf16Le {s : String} {width : Nat} (hs : '\x00' ∉ s.toList)
    (hfits : (s.toList.flatMap utf16Units).length ≤ width / 2) :
    fromUtf16Le (utf16Le s width) = s := by
  rw [fromUtf16Le, utf16Le, List.take_of_length_le hfits,
    utf16Chunks_append fun unit h => (mem_units hs h).2,
    takeWhile_units (fun unit h => (mem_units hs h).1) (utf16Chunks_replicate _),
    fromUtf16Lossy_flatMap, String.ofList_toList]

theorem tfWire_lt (tf : String) : tfWire tf < 256 ^ 2 := by
  unfold tfWire
  split_ifs <;> omega

/-- The server reads the fields that were packed. -/
theorem readRates_packRatesReq {symbol tf : String} {start stop : Int} (hsymbol : FitsSymbol symbol)
    (hstart : 0 ≤ start ∧ start < 2 ^ 31) (hstop : 0 ≤ stop ∧ stop < 2 ^ 31) :
    readRates (packRatesReq symbol tf start stop) = ⟨symbol, tfWire tf, start, stop⟩ := by
  have hname : (utf16Le symbol 64).length = 64 := length_utf16Le symbol 64 rfl
  have hchunk : ∀ {i from_ size chunk}, (ratesReqChunks symbol tf start stop)[i]? = some chunk →
      ((ratesReqChunks symbol tf start stop).take i).flatten.length = from_ →
      chunk.length = size → slice (packRatesReq symbol tf start stop) from_ size = chunk :=
    fun hi hfrom hsize => slice_flatten hi hfrom hsize
  have h0 : slice (packRatesReq symbol tf start stop) 0 64 = utf16Le symbol 64 :=
    hchunk (i := 0) rfl rfl hname
  have h1 : slice (packRatesReq symbol tf start stop) 64 2 = LittleEndian.encode 2 (tfWire tf) :=
    hchunk (i := 1) rfl (by simp [ratesReqChunks, hname]) (LittleEndian.length_encode _ _)
  have h2 : slice (packRatesReq symbol tf start stop) 66 4 = LittleEndian.encodeInt 4 start :=
    hchunk (i := 2) rfl (by simp [ratesReqChunks, hname]) (LittleEndian.length_encodeInt _ _)
  have h3 : slice (packRatesReq symbol tf start stop) 70 4 = LittleEndian.encodeInt 4 stop :=
    hchunk (i := 3) rfl (by simp [ratesReqChunks, hname]) (LittleEndian.length_encodeInt _ _)
  rw [readRates, h0, h1, h2, h3, fromUtf16Le_utf16Le hsymbol.1 hsymbol.2,
    LittleEndian.decode_encode_of_lt (tfWire_lt tf),
    LittleEndian.decodeInt_encodeInt (by omega) (by omega),
    LittleEndian.decodeInt_encodeInt (by omega) (by omega)]

theorem f64At_append {bytes more : Bytes} {offset : Nat} (h : offset + 8 ≤ bytes.length) :
    f64At ((bytes ++ more).drop offset) = f64At (bytes.drop offset) := by
  rw [List.drop_append_of_le_length (by omega), f64At, f64At, if_neg (by simp; omega),
    if_neg (by simp; omega), List.take_append_of_le_length (by simp; omega)]

theorem i64At_append {bytes more : Bytes} {offset : Nat} (h : offset + 8 ≤ bytes.length) :
    i64At ((bytes ++ more).drop offset) = i64At (bytes.drop offset) := by
  rw [List.drop_append_of_le_length (by omega), i64At, i64At, if_neg (by simp; omega),
    if_neg (by simp; omega), List.take_append_of_le_length (by simp; omega)]

/-- A candle is read from its own record. -/
theorem parseCandle_append {bytes : Bytes} (h : bytes.length = CANDLE_SIZE) (more : Bytes) :
    parseCandle (bytes ++ more) = parseCandle bytes := by
  have h : bytes.length = 48 := h
  simp (disch := omega) only [parseCandle, f64At_append, i64At_append, slice_append]

theorem parseCandles_append {bytes : Bytes} (h : bytes.length = CANDLE_SIZE) (body : Bytes) :
    parseCandles (bytes ++ body) = parseCandle bytes :: parseCandles body := by
  have hcount : (bytes ++ body).length / CANDLE_SIZE = body.length / CANDLE_SIZE + 1 := by
    rw [List.length_append, h, Nat.add_comm, Nat.add_div_right _ (by decide)]
  rw [parseCandles, hcount, List.range_succ_eq_map, List.map_cons, List.map_map]
  congr 1
  · exact parseCandle_append h body
  · apply List.map_congr_left
    intro i _
    show parseCandle ((bytes ++ body).drop (CANDLE_SIZE * (i + 1))) = _
    rw [Nat.mul_add, Nat.mul_one, Nat.add_comm, ← h, List.drop_length_add_append]

theorem parseCandles_flatMap (records : List Stored) :
    parseCandles (records.flatMap Stored.bytes) = records.map Stored.candle := by
  induction records with
  | nil => rfl
  | cons r records ih =>
    rw [List.flatMap_cons, parseCandles_append r.length_bytes, ih, List.map_cons]
    rfl

theorem clampTime_bounds (t : Int) : 0 ≤ clampTime t ∧ clampTime t < 2 ^ 31 := by
  unfold clampTime
  omega

/-- The server is asked for a window, and its candles in there come back. -/
theorem candlesBetween_answer (server : Server) {symbol : String} (hsymbol : FitsSymbol symbol)
    (tf : String) (start stop : Int) :
    candlesBetween (fun payload => .ok (server.answer payload)) symbol tf start stop =
      .ok (((server.stored symbol (tfWire tf)).filter (server.Serves
        ⟨symbol, tfWire tf, clampTime start, clampTime stop⟩)).map Stored.candle) := by
  show Except.ok (parseCandles (server.answer _)) = _
  rw [Server.answer, readRates_packRatesReq hsymbol (clampTime_bounds start)
    (clampTime_bounds stop), parseCandles_flatMap]

/-! ## A page -/

theorem wrap_eq {x : Int} (hlo : -2 ^ 63 ≤ x) (hhi : x < 2 ^ 63) : wrap x = x :=
  Int.bmod_eq_of_le_mul_two (by omega) (by omega)

theorem tfSeconds_bounds (tf : String) : 60 ≤ tfSeconds tf ∧ tfSeconds tf ≤ 86400 := by
  unfold tfSeconds
  split_ifs <;> omega

/-- The seconds that a page of the latest candles reaches back. -/
def latestSpan (tf : String) (count : Nat) : Int := (count + 10) * tfSeconds tf

/-- The seconds that a page before a candle reaches back. -/
def pageSpan (tf : String) (count : Nat) : Int := latestSpan tf count * 2 + 3 * 86400

theorem latestSpan_bounds (tf : String) {count : Nat} (hcount : count < 2 ^ 32) :
    0 ≤ latestSpan tf count ∧ latestSpan tf count < 2 ^ 50 := by
  obtain ⟨hlo, hhi⟩ := tfSeconds_bounds tf
  have hle : ((count : Int) + 10) * tfSeconds tf ≤ ((count : Int) + 10) * 86400 :=
    Int.mul_le_mul_of_nonneg_left hhi (by omega)
  have hnonneg : 0 ≤ ((count : Int) + 10) * tfSeconds tf :=
    Int.mul_nonneg (by omega) (by omega)
  unfold latestSpan
  omega

theorem wrap_span (tf : String) {count : Nat} (hcount : count < 2 ^ 32) :
    wrap (wrap (asI64 count + 10) * tfSeconds tf) = latestSpan tf count := by
  have hbounds := latestSpan_bounds tf hcount
  have hcast : asI64 count = count := Int.bmod_eq_of_le_mul_two (by omega) (by omega)
  rw [hcast, wrap_eq (x := count + 10) (by omega) (by omega)]
  exact wrap_eq (by unfold latestSpan at hbounds; omega) (by unfold latestSpan at hbounds; omega)

theorem ratesWindow_some (tf : String) {count : Nat} (hcount : count < 2 ^ 32) {stop : Int}
    (hstop : -2 ^ 40 < stop ∧ stop < 2 ^ 40) (now : Int) :
    ratesWindow tf count (some stop) now = (stop - pageSpan tf count, stop) := by
  have hbounds := latestSpan_bounds tf hcount
  simp only [ratesWindow, wrap_span tf hcount, pageSpan]
  simp (disch := omega) only [wrap_eq]
  congr 1
  omega

theorem ratesWindow_none (tf : String) {count : Nat} (hcount : count < 2 ^ 32) {now : Int}
    (hnow : -2 ^ 40 < now ∧ now < 2 ^ 40) :
    ratesWindow tf count none now = (now - latestSpan tf count, now) := by
  have hbounds := latestSpan_bounds tf hcount
  simp only [ratesWindow, wrap_span tf hcount]
  simp (disch := omega) only [wrap_eq]

theorem ite_drop_eq_lastOf {α : Type} (count : Nat) (rows : List α) :
    (if count < rows.length then rows.drop (rows.length - count) else rows) =
      Pages.lastOf count rows := by
  by_cases h : count < rows.length
  · rw [if_pos h]
    rfl
  · rw [if_neg h, Pages.lastOf, Nat.sub_eq_zero_of_le (by omega), List.drop_zero]

theorem toUtc_time {shift : Int} (hshift : -2 ^ 31 < shift ∧ shift < 2 ^ 31) (r : Stored) :
    (toUtc shift r.candle).time = r.candle.time - shift := by
  have hlo : 0 ≤ r.candle.time := r.time_nonneg
  have hhi : r.candle.time < 2 ^ 31 - 1 := r.time_lt
  exact wrap_eq (by omega) (by omega)

theorem held_sorted (server : Server) {shift : Int} (hshift : -2 ^ 31 < shift ∧ shift < 2 ^ 31)
    (symbol tf : String) :
    (server.held shift symbol tf).Pairwise fun a b => a.time < b.time := by
  refine List.pairwise_map.mpr ((server.sorted symbol (tfWire tf)).imp ?_)
  intro a b h
  rw [toUtc_time hshift, toUtc_time hshift]
  omega

theorem held_bounds {server : Server} {shift : Int} (hshift : -2 ^ 31 < shift ∧ shift < 2 ^ 31)
    {symbol tf : String} {r : Candle} (hr : r ∈ server.held shift symbol tf) :
    -2 ^ 33 < r.time ∧ r.time < 2 ^ 33 := by
  obtain ⟨s, -, rfl⟩ := List.mem_map.mp hr
  have hlo : 0 ≤ s.candle.time := s.time_nonneg
  have hhi : s.candle.time < 2 ^ 31 - 1 := s.time_lt
  rw [toUtc_time hshift]
  omega

/-- A page before a time holds the last candles of its window. -/
theorem historyLatest_before (server : Server) {shift : Int}
    (hshift : -2 ^ 31 < shift ∧ shift < 2 ^ 31) (now : Int) {symbol : String}
    (hsymbol : FitsSymbol symbol) (tf : String) {count : Nat} (hcount : count < 2 ^ 32) {b : Int}
    (hb : -2 ^ 33 < b ∧ b < 2 ^ 33) :
    historyLatest (fun payload => .ok (server.answer payload)) shift now symbol tf count (some b) =
      .ok (Pages.lastOf count
        (Pages.window Candle.time (pageSpan tf count) b (server.held shift symbol tf))) := by
  have hsum : wrap (b + shift) = b + shift := wrap_eq (by omega) (by omega)
  have hbounds := latestSpan_bounds tf hcount
  unfold historyLatest
  rw [Option.map_some, hsum, ratesWindow_some tf hcount (by omega)]
  simp only [candlesBetween_answer server hsymbol]
  show Except.ok (if _ then _ else _) = _
  rw [ite_drop_eq_lastOf, Pages.window, Server.held, List.map_map, List.filter_map,
    List.filter_filter, List.filter_map]
  congr 3
  apply List.filter_congr
  intro r _
  have hlo : 0 ≤ r.candle.time := r.time_nonneg
  have hhi : r.candle.time < 2 ^ 31 - 1 := r.time_lt
  rw [Bool.eq_iff_iff]
  simp only [Function.comp, Bool.and_eq_true, decide_eq_true_eq]
  simp only [toUtc_time hshift, Server.Serves, clampTime, pageSpan]
  omega

/-- The latest candles, up to the clock of the client. -/
def Server.now (server : Server) (shift now : Int) (symbol tf : String) : List Candle :=
  (server.held shift symbol tf).filter fun r =>
    r.time < now ∨ (server.inclusive ∧ r.time = now)

theorem historyLatest_now (server : Server) {shift : Int}
    (hshift : -2 ^ 31 < shift ∧ shift < 2 ^ 31) {now : Int} (hnow : 0 ≤ now + shift ∧ now < 2 ^ 33)
    {symbol : String} (hsymbol : FitsSymbol symbol) (tf : String) {count : Nat}
    (hcount : count < 2 ^ 32) :
    historyLatest (fun payload => .ok (server.answer payload)) shift now symbol tf count none =
      .ok (Pages.lastOf count ((server.now shift now symbol tf).filter
        fun r => now - latestSpan tf count ≤ r.time)) := by
  have hsum : wrap (now + shift) = now + shift := wrap_eq (by omega) (by omega)
  have hbounds := latestSpan_bounds tf hcount
  unfold historyLatest
  rw [Option.map_none, hsum, ratesWindow_none tf hcount (by omega)]
  simp only [candlesBetween_answer server hsymbol]
  show Except.ok (if _ then _ else _) = _
  rw [ite_drop_eq_lastOf, Server.now, Server.held, List.map_map, List.filter_map, List.filter_map,
    List.filter_filter]
  congr 3
  apply List.filter_congr
  intro r _
  have hlo : 0 ≤ r.candle.time := r.time_nonneg
  have hhi : r.candle.time < 2 ^ 31 - 1 := r.time_lt
  rw [Bool.eq_iff_iff]
  simp only [Function.comp, Bool.and_eq_true, decide_eq_true_eq]
  simp only [toUtc_time hshift, Server.Serves, clampTime]
  cases server.inclusive with
  | true =>
    simp only [true_and]
    omega
  | false =>
    simp only [Bool.false_eq_true, false_and, or_false]
    omega

/-- `history` gives what the server holds from the first second to before the last one. -/
theorem history_answer (server : Server) {shift : Int}
    (hshift : -2 ^ 31 < shift ∧ shift < 2 ^ 31) {symbol : String} (hsymbol : FitsSymbol symbol)
    (tf : String) {seconds start stop : Int} (hseconds : seconds < 2 ^ 32)
    (hstart : -2 ^ 33 < start ∧ start < 2 ^ 33) (hstop : -2 ^ 33 < stop ∧ stop < 2 ^ 33) :
    history (fun payload => .ok (server.answer payload)) shift symbol tf seconds start stop =
      .ok ((server.held shift symbol tf).filter fun r =>
        max start (stop - max seconds 1 * 5000) ≤ r.time ∧ r.time < stop) := by
  have hspan : wrap (stop - wrap (max seconds 1 * 5000)) = stop - max seconds 1 * 5000 := by
    rw [wrap_eq (x := max seconds 1 * 5000) (by omega) (by omega)]
    exact wrap_eq (by omega) (by omega)
  unfold history
  simp only [hspan, candlesBetween_answer server hsymbol]
  rw [wrap_eq (x := max start _ + shift) (by omega) (by omega),
    wrap_eq (x := stop + shift) (by omega) (by omega)]
  show Except.ok (List.filter _ _) = _
  rw [Server.held, List.map_map, List.filter_map, List.filter_filter, List.filter_map]
  congr 2
  apply List.filter_congr
  intro r _
  have hlo : 0 ≤ r.candle.time := r.time_nonneg
  have hhi : r.candle.time < 2 ^ 31 - 1 := r.time_lt
  rw [Bool.eq_iff_iff]
  simp only [Function.comp, Bool.and_eq_true, decide_eq_true_eq]
  simp only [toUtc_time hshift, Server.Serves, clampTime]
  omega

/-! ## The chart -/

/-- The page of a call, with no candles when the call fails. -/
def pageOf (page : Except Ticket.SessionError (List Candle)) : List Candle :=
  match page with
  | .ok rows => rows
  | .error _ => []

/-- The pages before a candle, the oldest first. -/
def scroll (rates : Bytes → Except Request.Error Bytes) (shift now : Int) (symbol tf : String)
    (count rounds : Nat) (stop : Int) : List (List Candle) :=
  Pages.pages Candle.time
    (fun b => pageOf (historyLatest rates shift now symbol tf count (some b))) rounds stop

/-- A chart that loads the latest candles and scrolls back, the oldest page first. -/
def chart (rates : Bytes → Except Request.Error Bytes) (shift now : Int) (symbol tf : String)
    (count rounds : Nat) : List (List Candle) :=
  match pageOf (historyLatest rates shift now symbol tf count none) with
  | [] => []
  | first :: rest => scroll rates shift now symbol tf count rounds first.time ++ [first :: rest]

section Chart

variable (server : Server) {shift : Int} (now : Int) {symbol : String} (tf : String) {count : Nat}

theorem pageOf_before (hshift : -2 ^ 31 < shift ∧ shift < 2 ^ 31) (hsymbol : FitsSymbol symbol)
    (hcount : count < 2 ^ 32) {b : Int} (hb : -2 ^ 33 < b ∧ b < 2 ^ 33) :
    pageOf (historyLatest (fun payload => .ok (server.answer payload)) shift now symbol tf count
      (some b)) = Pages.lastOf count
        (Pages.window Candle.time (pageSpan tf count) b (server.held shift symbol tf)) := by
  rw [historyLatest_before server hshift now hsymbol tf hcount hb]
  rfl

theorem scroll_suffix (hshift : -2 ^ 31 < shift ∧ shift < 2 ^ 31) (hsymbol : FitsSymbol symbol)
    (hcount : count < 2 ^ 32) (rounds : Nat) {stop : Int} (hstop : -2 ^ 33 < stop ∧ stop < 2 ^ 33) :
    (scroll (fun payload => .ok (server.answer payload)) shift now symbol tf count rounds
      stop).flatten <:+ Pages.before Candle.time stop (server.held shift symbol tf) := by
  have hkeys := held_sorted server hshift symbol tf
  have hpage : ∀ b, (-2 ^ 33 < b ∧ b < 2 ^ 33) →
      pageOf (historyLatest (fun payload => .ok (server.answer payload)) shift now symbol tf count
        (some b)) <:+ Pages.before Candle.time b (server.held shift symbol tf) := by
    intro b hb
    rw [pageOf_before server now tf hshift hsymbol hcount hb]
    exact (Pages.lastOf_suffix count _).trans (Pages.window_suffix hkeys b)
  exact Pages.pages_suffix hkeys (fun r hr => held_bounds hshift hr) hpage rounds hstop

/-- Behind the last page there is no candle in the window. -/
theorem scroll_stop (hshift : -2 ^ 31 < shift ∧ shift < 2 ^ 31) (hsymbol : FitsSymbol symbol)
    (hcount : 0 < count ∧ count < 2 ^ 32) (rounds : Nat) {stop first : Int}
    (hfirst : Pages.oldest Candle.time stop
      (scroll (fun payload => .ok (server.answer payload)) shift now symbol tf count rounds
        stop).flatten = first) (hbounds : -2 ^ 33 < first ∧ first < 2 ^ 33) :
    (scroll (fun payload => .ok (server.answer payload)) shift now symbol tf count rounds
        stop).length = rounds ∨
      Pages.window Candle.time (pageSpan tf count) first (server.held shift symbol tf) = [] := by
  subst hfirst
  refine (Pages.pages_stop rounds stop).imp id ?_
  intro hnone
  rw [← Pages.lastOf_eq_nil hcount.1, ← pageOf_before server now tf hshift hsymbol hcount.2 hbounds]
  exact hnone

/-- The chart shows the candles of the server without a gap and without one twice: what it has
loaded are the last of those up to now.  It stops behind as many pages as were asked for, or where
the server holds no candle in the window before the first one that is shown. -/
theorem chart_contiguous {now : Int} (hshift : -2 ^ 31 < shift ∧ shift < 2 ^ 31)
    (hnow : 0 ≤ now + shift ∧ now < 2 ^ 33) (hsymbol : FitsSymbol symbol)
    (hcount : 0 < count ∧ count < 2 ^ 32) (rounds : Nat) :
    let shown := chart (fun payload => .ok (server.answer payload)) shift now symbol tf count rounds
    shown.flatten <:+ server.now shift now symbol tf ∧
      (shown = [] → ∀ r ∈ server.now shift now symbol tf, r.time < now - latestSpan tf count) ∧
      ∀ oldest, shown.flatten.head? = some oldest → shown.length = rounds + 1 ∨
        Pages.window Candle.time (pageSpan tf count) oldest.time (server.held shift symbol tf) =
          [] := by
  have hkeys : (server.now shift now symbol tf).Pairwise fun a b => a.time < b.time :=
    (held_sorted server hshift symbol tf).filter _
  unfold chart
  rw [historyLatest_now server hshift hnow hsymbol tf hcount.2, pageOf]
  cases hread : Pages.lastOf count ((server.now shift now symbol tf).filter
      fun r => now - latestSpan tf count ≤ r.time) with
  | nil =>
    refine ⟨List.nil_suffix, ?_, ?_⟩
    · intro _ r hr
      rw [Pages.lastOf_eq_nil hcount.1, List.filter_eq_nil_iff] at hread
      have := hread r hr
      rw [decide_eq_true_eq] at this
      omega
    · intro oldest holdest
      cases holdest
  | cons first rest =>
    obtain ⟨front, hsplit⟩ : first :: rest <:+ server.now shift now symbol tf := by
      refine List.IsSuffix.trans (hread ▸ Pages.lastOf_suffix count _) ?_
      exact ⟨_, Pages.before_append hkeys (now - latestSpan tf count)⟩
    have hmem : first ∈ server.now shift now symbol tf := hsplit ▸ by simp
    obtain ⟨hheld, hshown⟩ := List.mem_filter.mp hmem
    rw [decide_eq_true_eq] at hshown
    -- What is before the first page is what is before its first candle.
    have hfront : Pages.before Candle.time first.time (server.held shift symbol tf) = front := by
      have hnow : Pages.before Candle.time first.time (server.now shift now symbol tf) = front := by
        rw [← hsplit]
        exact Pages.before_of_split (hsplit ▸ hkeys)
      rw [← hnow]
      symm
      apply Pages.before_filter
      intro r _ hr
      exact decide_eq_true (by omega)
    have holder := scroll_suffix server now tf hshift hsymbol hcount.2 rounds
      (held_bounds hshift hheld)
    rw [hfront] at holder
    have hsuffix : (scroll (fun payload => .ok (server.answer payload)) shift now symbol tf count
        rounds first.time ++ [first :: rest]).flatten <:+ server.now shift now symbol tf := by
      rw [List.flatten_append, List.flatten_singleton, ← hsplit]
      exact List.suffix_append_self_iff.mpr holder
    refine ⟨hsuffix, ?_, ?_⟩
    · intro hnone
      cases (List.append_eq_nil_iff.mp hnone).2
    · intro oldest holdest
      have hbounds : -2 ^ 33 < oldest.time ∧ oldest.time < 2 ^ 33 := by
        have hoffered := hsuffix.subset (List.mem_of_head? holdest)
        exact held_bounds hshift (List.mem_of_mem_filter hoffered)
      have htime : Pages.oldest Candle.time first.time
          (scroll (fun payload => .ok (server.answer payload)) shift now symbol tf count rounds
            first.time).flatten = oldest.time := by
        rw [List.flatten_append, List.head?_append] at holdest
        rw [Pages.oldest]
        cases hhead : (scroll (fun payload => .ok (server.answer payload)) shift now symbol tf count
            rounds first.time).flatten.head? with
        | none =>
          rw [hhead] at holdest
          cases holdest
          rfl
        | some a =>
          rw [hhead] at holdest
          cases holdest
          rfl
      refine (scroll_stop server now tf hshift hsymbol hcount rounds htime hbounds).imp ?_ id
      intro hall
      rw [List.length_append, hall]
      rfl

end Chart

/-- A candle of a minute in the life of a small server. -/
def sampleRecord (time : Nat) : Bytes := LittleEndian.encode 4 time ++ List.replicate 44 0

def sampleStored : List Stored :=
  [⟨sampleRecord 600, rfl, by decide +kernel, by decide +kernel⟩,
    ⟨sampleRecord 900, rfl, by decide +kernel, by decide +kernel⟩,
    ⟨sampleRecord 1200, rfl, by decide +kernel, by decide +kernel⟩]

def sampleServer : Server where
  stored symbol tf := if symbol = "EURUSD" ∧ tf = 5 then sampleStored else []
  sorted symbol tf := by
    split
    · decide +kernel
    · exact .nil
  inclusive := true

/-- Two candles a page: the oldest one is alone on its page, and the third page is empty. -/
theorem chart_contiguous_sample :
    (chart (fun payload => .ok (sampleServer.answer payload)) 0 1300 "EURUSD" "M5" 2 3).map
        (fun page => page.map Candle.time) = [[600], [900, 1200]] ∧
      (chart (fun payload => .ok (sampleServer.answer payload)) 0 1300 "EURUSD" "M5" 2 3).flatten
        <:+ sampleServer.now 0 1300 "EURUSD" "M5" := by
  refine ⟨by decide +kernel, ?_⟩
  exact (chart_contiguous sampleServer "M5" (by omega) (by omega)
    ⟨by decide +kernel, by decide +kernel⟩ (by omega) 3).1

end Mt5Open.Webterm.Rates
