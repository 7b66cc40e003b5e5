import Mt5Open.Lib.Replica
import Mt5Open.Native.Market
import Mt5Open.Native.Trade
import Mt5Open.Native.Updates
import Mt5Open.Session.Session
import Mathlib.Algebra.Order.BigOperators.Group.List
import Mathlib.Tactic.Ring

/-!
# The client

A client owns a session and a replica of the account: the synchronized state,
kept up to date by the messages of the broker, with quotes and depth beside it.
A poll takes a message and applies it; a poll that fails makes the client
unhealthy for good.

The client reads the clock, so a poll takes a `Tick` with the instants that it
reads.  Prices are exact numbers where the code rounds to a double.
-/

namespace Mt5Open.Native

open Lib

/-- A request goes out after this many milliseconds without sending anything. -/
def KEEPALIVE : Nat := 10 * 1000

/-- With keepalives answered, a live connection is never silent for so many milliseconds. -/
def RECEIVE_DEADLINE : Nat := 45 * 1000

structure Quote where
  symbol : String
  timeMs : Int
  bid : ℚ
  ask : ℚ
  deriving DecidableEq

structure Client where
  session : Session
  state : SynchronizedState
  quotes : AList fun _ : String => Quote
  accountMode : Option String
  subscriptions : List Int
  symbolIds : AList fun _ : Int => Nat
  changedQuotes : List Quote
  depthSubscriptions : List Nat
  changedDepth : List DepthRecord
  lastSend : Nat
  lastReceive : Nat
  receiveDeadline : Nat
  healthy : Bool
  deriving DecidableEq

/-- The instants that a poll reads from the clock: before it is called, when it
looks for a keepalive, behind the keepalive, behind the message and behind a
subscription. -/
structure Tick where
  now : Nat
  start : Nat
  sent : Nat
  received : Nat
  applied : Nat
  deriving DecidableEq, Repr

/-- Add to a sorted list that holds everything once, as a `BTreeSet` does. -/
def insertSorted {α : Type} [LT α] [DecidableLT α] (a : α) : List α → List α
  | [] => [a]
  | b :: rest =>
    if a < b then a :: b :: rest else if b < a then b :: insertSorted a rest else b :: rest

/-- `BTreeSet::extend`. -/
def insertAll {α : Type} [LT α] [DecidableLT α] (items : List α) (set : List α) : List α :=
  items.foldl (fun set a => insertSorted a set) set

namespace Client

/-- A method of a client that can change it. -/
abbrev Method := Act ProtocolError Client

/-- A method of the session. -/
def onSession {α : Type} (x : Session.Method α) : Method α :=
  Act.zoom session (fun s c => { c with session := s }) x

/-- The client of a session that has just synchronized. -/
def synchronized (session : Session) (state : SynchronizedState) (accountMode : String)
    (now : Nat) : Client where
  session := session
  state := state
  quotes := ∅
  accountMode := some accountMode
  subscriptions := []
  symbolIds := Index.collect Symbol.id state.symbols
  changedQuotes := []
  depthSubscriptions := []
  changedDepth := []
  lastSend := now
  lastReceive := now
  receiveDeadline := RECEIVE_DEADLINE
  healthy := true

/-- `Client::connect_with_endpoints`, over a session that has been dialed. -/
def connect (primitives : Primitives) (entropy : Entropy) (profile : LoginProfile) (login : Nat)
    (password : String) (clientBuild : Nat) (unixSeconds : Option Nat) (now : Nat)
    (session : Session) : Result Client := do
  let accountMode ← profile.accountMode login
  let (_, session) ←
    (Session.authenticate primitives entropy login password clientBuild).within session
  let (sync, session) ← (Session.synchronize primitives profile unixSeconds).within session
  return synchronized session sync.state accountMode now

/-- `Client::symbol`. -/
def symbol (c : Client) (name : String) : Result Symbol :=
  match c.state.symbols.find? (·.name = name) with
  | some s => .ok s
  | none => reject s!"unknown symbol {name}"

/-! ## Conversion paths -/

/-- A currency of the queue, with the way to it. -/
abbrev Way := String × List (Symbol × Bool)

/-- A quote with both sides is at hand. -/
def isQuoted (c : Client) (s : Symbol) : Bool :=
  match c.quotes.lookup s.name with
  | some q => 0 < q.bid ∧ 0 < q.ask
  | none => false

/-- The currency that a symbol leads to from this one, and whether forwards. -/
def crossing (s : Symbol) (currency : String) : Option (String × Bool) :=
  if s.baseCurrency = currency then some (s.profitCurrency, true)
  else if s.profitCurrency = currency then some (s.baseCurrency, false)
  else none

/-- One symbol in `Client::conversion_path`, with the ways that go on and the
currencies that have been visited. -/
def conversionStep (c : Client) (quoted : Bool) (way : Way)
    (found : List Way × List String) (s : Symbol) : List Way × List String :=
  if quoted ∧ !c.isQuoted s then found
  else
    match crossing s way.1 with
    | none => found
    | some (next, forward) =>
      if next = "" ∨ next ∈ found.2 then found
      else (found.1 ++ [(next, way.2 ++ [(s, forward)])], next :: found.2)

/-- The ways that go on from a way, and the currencies visited. -/
def conversionStepAll (c : Client) (quoted : Bool) (way : Way) (visited : List String) :
    List Way × List String :=
  c.state.symbols.foldl (c.conversionStep quoted way) ([], visited)

/-- What a way can still cost: it goes on over at most three symbols. -/
def wayCost (c : Client) (way : Way) : Nat := (c.state.symbols.length + 1) ^ (3 - way.2.length)

theorem conversionStepAll_ways (c : Client) (quoted : Bool) (way : Way) (visited : List String) :
    (c.conversionStepAll quoted way visited).1.length ≤ c.state.symbols.length ∧
      ∀ next ∈ (c.conversionStepAll quoted way visited).1, next.2.length = way.2.length + 1 := by
  have hfold : ∀ (symbols : List Symbol) (found : List Way × List String),
      (∀ next ∈ found.1, next.2.length = way.2.length + 1) →
      (symbols.foldl (c.conversionStep quoted way) found).1.length ≤
          found.1.length + symbols.length ∧
        ∀ next ∈ (symbols.foldl (c.conversionStep quoted way) found).1,
          next.2.length = way.2.length + 1 := by
    intro symbols
    induction symbols with
    | nil => exact fun found hfound => ⟨Nat.le_refl _, hfound⟩
    | cons s symbols ih =>
      intro found hfound
      have hstep : (c.conversionStep quoted way found s).1.length ≤ found.1.length + 1 ∧
          ∀ next ∈ (c.conversionStep quoted way found s).1,
            next.2.length = way.2.length + 1 := by
        unfold conversionStep
        split
        · exact ⟨Nat.le_succ _, hfound⟩
        · split
          · exact ⟨Nat.le_succ _, hfound⟩
          · split
            · exact ⟨Nat.le_succ _, hfound⟩
            · refine ⟨by rw [List.length_append]; exact Nat.le_refl _, ?_⟩
              intro next hnext
              rcases List.mem_append.mp hnext with hnext | hnext
              · exact hfound next hnext
              · rw [List.mem_singleton.mp hnext, List.length_append]
                rfl
      obtain ⟨hlength, hways⟩ := ih _ hstep.2
      refine ⟨?_, hways⟩
      rw [List.foldl_cons, List.length_cons]
      have := hstep.1
      omega
  have h := hfold c.state.symbols ([], visited) (fun _ hnext => nomatch hnext)
  rw [List.length_nil, Nat.zero_add] at h
  exact h

/-- The loop of `Client::conversion_path`, over the queue and the currencies
that have been visited. -/
def conversionLoop (c : Client) (target : String) (quoted : Bool) :
    Loop (List Way × List String) (Option (List (Symbol × Bool))) where
  body
    | ([], _) => .inr none
    | (way :: queue, visited) =>
      if way.1 = target then .inr (some way.2)
      else if 3 ≤ way.2.length then .inl (queue, visited)
      else
        let found := c.conversionStepAll quoted way visited
        .inl (queue ++ found.1, found.2)
  measure s := (s.1.map c.wayCost).sum
  decreases := by
    rintro ⟨queue, visited⟩ t h
    cases queue with
    | nil => cases h
    | cons way queue =>
      have hcost : 0 < c.wayCost way := Nat.pow_pos (Nat.succ_pos _)
      simp only at h
      split at h
      · cases h
      · split at h
        · cases Sum.inl.inj h
          simp only [List.map_cons, List.sum_cons]
          omega
        · rename_i hshort
          cases Sum.inl.inj h
          obtain ⟨hcount, hlengths⟩ := c.conversionStepAll_ways quoted way visited
          have hsum : ((c.conversionStepAll quoted way visited).1.map c.wayCost).sum ≤
              c.state.symbols.length * (c.state.symbols.length + 1) ^ (2 - way.2.length) := by
            have hle : ∀ cost ∈ (c.conversionStepAll quoted way visited).1.map c.wayCost,
                cost ≤ (c.state.symbols.length + 1) ^ (2 - way.2.length) := by
              intro cost hmem
              obtain ⟨next, hnext, rfl⟩ := List.mem_map.mp hmem
              rw [wayCost, hlengths next hnext]
              exact Nat.le_of_eq (by congr 1; omega)
            have hbound := List.sum_le_card_nsmul _ _ hle
            rw [List.length_map, nsmul_eq_mul, Nat.cast_id] at hbound
            exact Nat.le_trans hbound (Nat.mul_le_mul_right _ hcount)
          have hpower : c.wayCost way = c.state.symbols.length *
              (c.state.symbols.length + 1) ^ (2 - way.2.length) +
                (c.state.symbols.length + 1) ^ (2 - way.2.length) := by
            rw [wayCost, show 3 - way.2.length = (2 - way.2.length) + 1 by omega, Nat.pow_succ]
            ring
          have hpos : 0 < (c.state.symbols.length + 1) ^ (2 - way.2.length) :=
            Nat.pow_pos (Nat.succ_pos _)
          simp only [List.map_cons, List.sum_cons, List.map_append, List.sum_append]
          omega

/-- `Client::conversion_path`. -/
def conversionPath (c : Client) (source target : String) (quoted : Bool) :
    Option (List (Symbol × Bool)) :=
  (c.conversionLoop target quoted).run ([(source, [])], [source])

/-! ## Subscriptions -/

/-- The symbols of the ways to the account currency, by id. -/
def conversionIds (c : Client) (names : List String) : Result (List Int) :=
  match c.state.terms with
  | none => .ok []
  | some terms => do
    let ids ← names.mapM fun name => do
      let s ← c.symbol name
      return [s.profitCurrency, s.marginCurrency].flatMap fun currency =>
        ((c.conversionPath currency terms.currency false).getD []).map fun step => step.1.id
    return ids.flatten

/-- `Client::subscribe`. -/
def subscribe (now : Nat) (names : List String) : Method Unit := do
  let c ← Act.get
  let ids ← Act.ofExcept (names.mapM fun name => (c.symbol name).map Symbol.id)
  let ways ← Act.ofExcept (c.conversionIds names)
  Act.modify fun c => { c with subscriptions := insertAll (ids ++ ways) c.subscriptions }
  let c ← Act.get
  let _ ← onSession (Session.subscribe c.subscriptions)
  Act.modify fun c => { c with lastSend := now }

/-- The id of a symbol for the depth subscription. -/
def depthId (c : Client) (name : String) : Result Nat := do
  let s ← c.symbol name
  if s.id < 0 then reject "negative depth symbol ID" else return s.id.toNat

/-- `Client::subscribe_depth`. -/
def subscribeDepth (now : Nat) (names : List String) : Method Unit := do
  let c ← Act.get
  let ids ← Act.ofExcept (names.mapM c.depthId)
  Act.modify fun c => { c with depthSubscriptions := insertAll ids c.depthSubscriptions }
  let c ← Act.get
  let _ ← onSession (Session.sendRequest 106 (makeDepthSubscriptionPayload c.depthSubscriptions))
  Act.modify fun c => { c with lastSend := now }

/-- `Client::take_depth_updates`. -/
def takeDepthUpdates (c : Client) : List DepthRecord × Client :=
  (c.changedDepth, { c with changedDepth := [] })

/-- `Client::take_quotes`. -/
def takeQuotes (c : Client) : List Quote × Client :=
  (c.changedQuotes, { c with changedQuotes := [] })

/-! ## Quotes and depth -/

/-- The symbol of a quote.  Where the code would index out of range, there is an
error here. -/
def quoteSymbol (c : Client) (row : QuoteRow) : Result Symbol :=
  if ¬(-2 ^ 31 ≤ row.symbolId ∧ row.symbolId < 2 ^ 31) then reject "quote symbol ID overflow"
  else
    match c.symbolIds.lookup row.symbolId with
    | none => reject "quote for unknown symbol ID"
    | some index =>
      match c.state.symbols[index]? with
      | none => reject "index out of bounds"
      | some s => .ok s

/-- The bid, the ask and the milliseconds of a row. -/
def quoteFieldsOf (command : UInt8) (row : QuoteRow) : Option Int × Option Int × Option Int :=
  if command = 50 then
    (row.liveGet "bid_integer", row.liveGet "ask_integer", row.liveGet "millisecond_component")
  else (row.fieldGet 0, row.fieldGet 3, row.fieldGet 26)

/-- A side of a quote: a positive value takes the place of the old price. -/
def price (old : ℚ) (digits : Int) (value : Option Int) : ℚ :=
  match value with
  | some v => if 0 < v then v / (10 : ℚ) ^ digits else old
  | none => old

/-- The time of a row, which must fit 64 bits. -/
def quoteTime (command : UInt8) (row : QuoteRow) : Result Int :=
  let timeMs := row.seconds * 1000 + (quoteFieldsOf command row).2.2.getD 0
  if ¬(-2 ^ 63 ≤ timeMs ∧ timeMs < 2 ^ 63) then reject "quote timestamp overflow" else .ok timeMs

/-- The quote of a symbol behind a row. -/
def updatedQuote (c : Client) (s : Symbol) (command : UInt8) (row : QuoteRow) (timeMs : Int) :
    Quote :=
  let (bid, ask, _) := quoteFieldsOf command row
  let old := (c.quotes.lookup s.name).getD { symbol := s.name, timeMs, bid := 0, ask := 0 }
  { old with timeMs, bid := price old.bid s.digits bid, ask := price old.ask s.digits ask }

/-- A quote with both sides is handed to the consumer. -/
def offerQuote (quote : Quote) : Method Unit := do
  let c ← Act.get
  if 0 < quote.bid ∧ 0 < quote.ask then
    if 100000 ≤ c.changedQuotes.length then Act.fail ⟨"quote consumer fell behind"⟩
    else Act.modify fun c => { c with changedQuotes := c.changedQuotes ++ [quote] }
  else return ()

/-- A row of the quotes branch of `Client::apply`. -/
def applyQuote (command : UInt8) (row : QuoteRow) : Method Unit := do
  let c ← Act.get
  let s ← Act.ofExcept (c.quoteSymbol row)
  let timeMs ← Act.ofExcept (quoteTime command row)
  Act.modify fun d =>
    { d with quotes := d.quotes.insert s.name (c.updatedQuote s command row timeMs) }
  offerQuote (c.updatedQuote s command row timeMs)

/-- A record of the depth branch of `Client::apply`. -/
def applyDepth (record : DepthRecord) : Method Unit := do
  let c ← Act.get
  if record.symbolId ∉ c.symbolIds then Act.fail ⟨"unknown depth symbol ID"⟩
  else Act.modify fun c => { c with changedDepth := c.changedDepth ++ [record] }

/-! ## The account -/

/-- A symbol of an update. -/
def applySymbol (c : Client) (s : Symbol) : Client :=
  match c.symbolIds.lookup s.id with
  | some index => { c with state := { c.state with symbols := c.state.symbols.set index s } }
  | none =>
    { c with
      symbolIds := c.symbolIds.insert s.id c.state.symbols.length
      state := { c.state with symbols := c.state.symbols ++ [s] } }

/-- An account record of an update. -/
def applyAccount (c : Client) (account : AccountState) : Client :=
  if account.login = c.state.account.login then { c with state := { c.state with account } } else c

/-- An order of an update. -/
def applyOrder (c : Client) (update : Change × Order) : Client :=
  let orders := c.state.orders.filter fun o => o.ticket ≠ update.2.ticket
  { c with
    state :=
      { c.state with orders := if update.1 ≠ .delete then orders ++ [update.2] else orders } }

/-- A position record of an update. -/
def applyPosition (c : Client) (position : Deal) : Client :=
  let positions := c.state.positions.filter fun p => p.ticket ≠ position.ticket
  { c with
    state :=
      { c.state with
        positions :=
          if 0 < position.volume ∧ position.position ≠ 0 then positions ++ [position]
          else positions } }

/-- A change of a position: the main record, the related ones and the balance. -/
def applyPositionChange (c : Client) (change : PositionChange) : Client :=
  let c := (change.position :: change.relatedPositions).foldl applyPosition c
  match change.balance with
  | some (balance, credit) =>
    { c with state := { c.state with account := { c.state.account with balance, credit } } }
  | none => c

/-- The symbols of positions that are not subscribed. -/
def unsubscribed (c : Client) : List String :=
  c.state.positions.filterMap fun p =>
    match c.symbol p.symbol with
    | .ok s => if s.id ∉ c.subscriptions then some s.name else none
    | .error _ => none

/-- What an update of `Client::apply` changes in the account. -/
def absorb (c : Client) : Update → Client
  | .symbols symbols => symbols.foldl applySymbol c
  | .account accounts => accounts.foldl applyAccount c
  | .orders orders => orders.foldl applyOrder c
  | .positions changes => changes.foldl applyPositionChange c
  | .other => c

/-- A change of the positions is followed by a subscription to their symbols. -/
def follow (now : Nat) : Update → Method Unit
  | .positions _ => do
    let c ← Act.get
    if c.unsubscribed = [] then return () else subscribe now c.unsubscribed
  | _ => return ()

/-- An update of `Client::apply`. -/
def applyUpdate (now : Nat) (update : Update) : Method Unit := do
  Act.modify fun c => c.absorb update
  follow now update

/-- `Client::apply`. -/
def apply (now : Nat) (m : Message) : Method Unit :=
  if m.command = 50 ∨ m.command = 51 then do
    let rows ← Act.ofExcept (decodeQuotes m.payload m.command)
    rows.forM (applyQuote m.command)
  else if m.command = 52 then do
    let records ← Act.ofExcept (decodeDepth m.payload)
    let c ← Act.get
    if 10000 < c.changedDepth.length + records.length then
      Act.fail ⟨"depth consumer fell behind"⟩
    else records.forM applyDepth
  else if m.command = 55 then do
    let update ← Act.ofExcept (decodeUpdate m.payload)
    applyUpdate now update
  else return ()

/-! ## Polls -/

/-- The keepalive of `Client::poll_inner`. -/
def keepalive (tick : Tick) : Method Unit := do
  let c ← Act.get
  if KEEPALIVE ≤ tick.start - c.lastSend then
    let _ ← onSession (Session.sendRequest command.PING [])
    Act.modify fun c => { c with lastSend := tick.sent }
  else return ()

/-- What `Client::poll_inner` does with what it has polled. -/
def accept (tick : Tick) : Option Message → Method Unit
  | some m => do
    Act.modify fun c => { c with lastReceive := tick.received }
    apply tick.applied m
  | none => do
    let c ← Act.get
    if c.receiveDeadline ≤ tick.received - c.lastReceive then
      Act.fail ⟨s!"broker sent nothing for {c.receiveDeadline / 1000} s"⟩
    else return ()

/-- `Client::poll_inner`. -/
def pollInner (tick : Tick) : Method (Option Message) := do
  keepalive tick
  let message ← onSession Session.pollMessage
  accept tick message
  return message

/-- `Client::poll`. -/
def poll (tick : Tick) : Method (Option Message) := fun c =>
  if !c.healthy then (.error ⟨"native state requires a fresh synchronization"⟩, c)
  else
    match pollInner tick c with
    | (.ok message, c) => (.ok message, c)
    | (.error e, c) => (.error e, { c with healthy := false })

/-- `Client::set_receive_deadline`. -/
def setReceiveDeadline (deadline : Nat) (c : Client) : Client :=
  { c with receiveDeadline := deadline }

/-! ## Requests and trades -/

/-- The loop of `Client::request` and `Client::trade`: poll until `handle` has a
result or the deadline passes.  The ticks are those of the polls to come. -/
def await {σ β : Type} (deadline : Nat) (late : β) (handle : σ → Result (Option Message) → σ ⊕ β) :
    List Tick → σ → Client → β × Client
  | [], _, c => (late, c)
  | tick :: ticks, waiting, c =>
    if deadline < tick.now then (late, c)
    else
      match handle waiting (poll tick c).1 with
      | .inr result => (result, (poll tick c).2)
      | .inl waiting => await deadline late handle ticks waiting (poll tick c).2

/-- What a request does with what it has polled. -/
def handleRequest (command : UInt8) (sequence : UInt16) (_ : Unit) :
    Result (Option Message) → Unit ⊕ Result Message
  | .error e => .inr (.error e)
  | .ok none => .inl ()
  | .ok (some m) =>
    if m.command = command ∧ m.sequence = sequence then .inr (.ok m) else .inl ()

/-- `Client::request`. -/
def request (now : Nat) (ticks : List Tick) (command : UInt8) (payload : Bytes) :
    Method Message := do
  let sequence ← onSession (Session.sendRequest command payload)
  Act.modify fun c => { c with lastSend := now }
  await (now + 30 * 1000) (reject "request deadline exceeded")
    (handleRequest command sequence) ticks ()

inductive TradeOutcome where
  | confirmed (result : TradeResult)
  | uncertain (reason : String)
  deriving DecidableEq, Repr

/-- The results of a message, one after the other, with the ticket that the
request is known to have. -/
def handleResults (requestId : Int) : Nat → List TradeResult → Nat ⊕ TradeOutcome
  | ticket, [] => .inl ticket
  | ticket, r :: results =>
    if r.requestId = requestId ∨ (r.requestId = 0 ∧ ticket ≠ 0 ∧ ticket = r.ticket) then
      let ticket := if r.ticket ≠ 0 then r.ticket else ticket
      if r.status = 10012 then .inr (.uncertain "broker reported a trade timeout")
      else if r.isFinal then .inr (.confirmed r)
      else handleResults requestId ticket results
    else handleResults requestId ticket results

/-- What a trade does with what it has polled. -/
def handleTrade (requestId : Int) (ticket : Nat) : Result (Option Message) → Nat ⊕ TradeOutcome
  | .error e => .inr (.uncertain e.message)
  | .ok none => .inl ticket
  | .ok (some m) =>
    if m.command = 55 ∧ m.payload.head? = some 35 then
      match TradeResult.decodeUpdate m.payload with
      | .error e => .inr (.uncertain e.message)
      | .ok results => handleResults requestId ticket results
    else .inl ticket

/-- The request id of a trade record. -/
def requestIdOf (record : Bytes) : Int := LittleEndian.decodeInt (record.take 4)

/-- The checks of `Client::trade` before anything is sent. -/
def checkTrade (record : Bytes) (c : Client) : Result Unit :=
  if !c.healthy then reject "native state requires a fresh synchronization"
  else do
    let _ ← parseTradeRecord record
    let readOnly ← c.session.isReadOnly
    if readOnly then reject "account is read-only"
    else if requestIdOf record ≤ 0 then reject "trade request ID must be positive"
    else return ()

/-- The loop of a trade that has been sent. -/
def tradeLoop (now : Nat) (ticks : List Tick) (record : Bytes) (c : Client) :
    TradeOutcome × Client :=
  await (now + 30 * 1000) (.uncertain "trade result deadline exceeded")
    (handleTrade (requestIdOf record)) ticks 0 { c with lastSend := now }

/-- `Client::trade`. -/
def trade (primitives : Primitives) (now : Nat) (ticks : List Tick) (record : Bytes) :
    Method TradeOutcome := fun c =>
  match c.checkTrade record with
  | .error e => (.error e, c)
  | .ok () =>
    match onSession (Session.sendTrade primitives record) c with
    | (.error e, c) => (.ok (.uncertain e.message), c)
    | (.ok _, c) =>
      let (outcome, c) := tradeLoop now ticks record c
      (.ok outcome, c)

end Client

end Mt5Open.Native
