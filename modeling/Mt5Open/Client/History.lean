import Mt5Open.Client.Client
import Mt5Open.Lib.Rounds
import Mt5Open.Lib.Sorted
import Mt5Open.Native.Bars
import Mt5Open.Native.Materialize
import Mt5Open.Native.Requests

/-!
# Tick and bar histories of the client

The ticks of a day come in responses that can announce more.  The client keeps the last
version of each container and sends their cache tokens back until a response ends the day.
Bars come in pages, from the end of the range backwards.

Both are rounds of requests, `tickRounds` and `barRounds`.  A `Link` is what they need of a
client, and what a response is decoded to is a parameter, so that the results are about any
sequence of responses.
-/

namespace Mt5Open.Native.Client

open Lib
open Ticks (TickCache TickContainer TickHistory HistoricalTick materializeTicks)
open Bars (Bar BarHistory)

/-- The symbols of a client, and its requests with their replies. -/
structure Link (σ : Type) where
  symbol : σ → String → Result Symbol
  request : UInt8 → Bytes → Act ProtocolError σ Message

/-- The link of a client, beside the instants that its requests to come read from the clock:
when each one is sent, and those of its polls. -/
def clientLink : Link (Client × List (Nat × List Tick)) where
  symbol s name := s.1.symbol name
  request command payload := fun s =>
    let (now, ticks) := s.2.headD (0, [])
    let (reply, c) := request now ticks command payload s.1
    (reply, c, s.2.tail)

/-- A request whose reply is decoded. -/
def fetch {σ α : Type} (link : Link σ) (decode : Bytes → Result α) (command : UInt8)
    (payload : Bytes) : Act ProtocolError σ α := do
  let m ← link.request command payload
  Act.ofExcept (decode m.payload)

/-- `date`, the civil date of a day.  The divisions round down, since nothing is negative. -/
def date (seconds : Int) : Result (Int × Int × Int) :=
  if ¬(0 ≤ seconds ∧ seconds < 4039372800) then reject "history time outside date-token range"
  else
    let z := seconds / 86400 + 719468
    let era := z / 146097
    let doe := z - era * 146097
    let yoe := (doe - doe / 1460 + doe / 36524 - doe / 146096) / 365
    let y := yoe + era * 400
    let doy := doe - (365 * yoe + yoe / 4 - yoe / 100)
    let mp := (5 * doy + 2) / 153
    let d := doy - (153 * mp + 2) / 5 + 1
    let m := mp + if mp < 10 then 3 else -9
    .ok (y + if m ≤ 2 then 1 else 0, m, d)

/-! ## Ticks -/

/-- The cache tokens of containers. -/
def tokens (containers : List TickContainer) : List TickCache := containers.map (·.cache)

/-- The loop of `Client::ticks` over the responses of a day, with the containers that are
held. -/
def tickRounds (symbol : String) (year month day : Int) :
    Rounds ProtocolError (List TickContainer) Bytes TickHistory
      (List TickContainer × TickHistory) where
  request cached := makeCachedTickHistoryRequest symbol year month day 0 (tokens cached)
  next cached response :=
    if response.symbol ≠ symbol then reject "tick history symbol mismatch"
    else
      let held := response.containers.foldl (fun held c => supersede (·.cache.date) c held) cached
      if 1000000 < (held.map (·.ticks.length)).sum then
        reject "tick cache exceeds one million rows"
      else if response.more then
        if tokens cached = tokens held then reject "tick continuation made no progress"
        else .ok (.inl held)
      else .ok (.inr (held, response))
  late := ⟨"tick continuation limit exceeded"⟩

/-- The ticks of containers that are in the range and on the day. -/
def ticksWithin (fromMs toMs day : Int) (containers : List TickContainer) :
    Result (List HistoricalTick) := do
  let rows ← materializeTicks (containers.flatMap (·.ticks))
  return rows.filter fun r =>
    fromMs ≤ r.timeMs ∧ r.timeMs < toMs ∧ r.timeMs / 86400000 = day

section Fetch

variable {σ : Type} (link : Link σ)

section Ticks

variable (decode : Bytes → Result TickHistory) (symbol : String) (fromMs toMs : Int)

/-- A day of `Client::ticks`, with the ticks of the days before. -/
def ticksOfDay (day : Int) (output : List HistoricalTick) :
    Act ProtocolError σ (List HistoricalTick) := do
  let (year, month, dayOfMonth) ← Act.ofExcept (date (day * 86400))
  let (cached, response) ←
    (tickRounds symbol year month dayOfMonth).run (fetch link decode 105) 64 []
  let rows ← Act.ofExcept (ticksWithin fromMs toMs day
    (sortByKey (·.cache.date) cached ++ response.trailing))
  if 1000000 < (output ++ rows).length then
    Act.fail ⟨"tick range exceeds one million rows"⟩
  else return output ++ rows

/-- The loop of `Client::ticks` over the days. -/
def ticksOfDays : List Int → List HistoricalTick → Act ProtocolError σ (List HistoricalTick)
  | [], output => return output
  | day :: days, output => do
    let output ← ticksOfDay link decode symbol fromMs toMs day output
    ticksOfDays days output

/-- `first..=last` -/
def daysBetween (first last : Int) : List Int :=
  (List.range (last - first + 1).toNat).map fun i => first + i

/-- The days that a range of milliseconds touches. -/
def daysOf (fromMs toMs : Int) : List Int :=
  daysBetween (fromMs / 86400000) ((toMs - 1) / 86400000)

/-- `Client::ticks`. -/
def ticks : Act ProtocolError σ (List HistoricalTick) := do
  let s ← Act.get
  let _ ← Act.ofExcept (link.symbol s symbol)
  if toMs ≤ fromMs then return []
  else do
    let _ ← Act.ofExcept (date (fromMs / 1000))
    let _ ← Act.ofExcept (date ((toMs - 1) / 1000))
    if 31 ≤ (toMs - 1) / 86400000 - fromMs / 86400000 then
      Act.fail ⟨"tick range exceeds 31 days"⟩
    else do
      let output ← ticksOfDays link decode symbol fromMs toMs (daysOf fromMs toMs) []
      return sortByKey (·.timeMs) output

end Ticks

end Fetch

/-! ## Bars -/

/-- The bars that are kept, with the time that the next page ends at. -/
structure BarPage where
  before : Int
  bars : Keyed Bar.time

/-- The variables of the loop over a page. -/
structure BarScan where
  bars : Keyed Bar.time
  oldest : Int
  found : Bool

/-- A bar of a page. -/
def scanBar (fromTime toTime : Int) (scan : BarScan) (bar : Bar) : BarScan where
  bars := if fromTime ≤ bar.time ∧ bar.time < toTime then scan.bars.insert bar else scan.bars
  oldest := min scan.oldest bar.time
  found := true

/-- A group of a page. -/
def scanGroup (symbol : String) (fromTime toTime : Int) (scan : BarScan) (group : BarHistory) :
    Result BarScan :=
  if group.symbol ≠ symbol then reject "bar response symbol mismatch"
  else .ok (group.bars.foldl (scanBar fromTime toTime) scan)

/-- The loop of `Client::bars`. -/
def barRounds (symbol : String) (fromTime toTime : Int) :
    Rounds ProtocolError BarPage Bytes (List BarHistory) (List Bar) where
  request page := do
    let (year, month, day) ← date page.before
    barMonthRequest symbol year month day
  next page groups := do
    let scan ← groups.foldlM (scanGroup symbol fromTime toTime)
      { bars := page.bars, oldest := page.before, found := false }
    if !scan.found ∨ scan.oldest ≤ fromTime then return .inr scan.bars.items
    else if page.before ≤ scan.oldest then reject "bar pagination made no progress"
    else return .inl { before := scan.oldest - 1, bars := scan.bars }
  late := ⟨"bar range exceeds pagination limit"⟩

/-- `Client::bars`. -/
def bars {σ : Type} (link : Link σ) (decode : Bytes → Result (List BarHistory)) (symbol : String)
    (fromTime toTime : Int) : Act ProtocolError σ (List Bar) := do
  let s ← Act.get
  let _ ← Act.ofExcept (link.symbol s symbol)
  if toTime ≤ fromTime then return []
  else
    (barRounds symbol fromTime toTime).run (fetch link decode 102) 256
      { before := toTime - 1, bars := .empty Bar.time }

end Mt5Open.Native.Client
