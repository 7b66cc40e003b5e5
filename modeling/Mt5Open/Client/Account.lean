import Mt5Open.Client.Client

/-!
# The replica of the account

`apply` keeps the orders, the positions and the symbols of the synchronized
state up to date.  The orders and the positions are replicas of the records of
the updates, and the symbols are found through an index of their ids.

`absorb_replays` and `Sound.absorb` are the step for one update, and
`account_replica` is what holds behind any messages.
-/

namespace Mt5Open.Native

open Lib

namespace Client

/-! ## The records of the updates -/

/-- An order record stays when it is no deletion. -/
def orderRecord (update : Change × Order) : Order × Bool := (update.2, update.1 ≠ .delete)

/-- A position record stays when it has volume and a position id. -/
def positionRecord (position : Deal) : Deal × Bool :=
  (position, 0 < position.volume ∧ position.position ≠ 0)

def orderRecords : Update → List (Order × Bool)
  | .orders orders => orders.map orderRecord
  | _ => []

/-- The main record of each change, and its related positions. -/
def positionRecords : Update → List (Deal × Bool)
  | .positions changes => changes.flatMap fun change =>
    (change.position :: change.relatedPositions).map positionRecord
  | _ => []

/-- The updates among the messages. -/
def updates (messages : List Message) : List Update :=
  messages.flatMap fun m : Message =>
    if m.command = 55 then
      match decodeUpdate m.payload with
      | .ok update => [update]
      | .error _ => []
    else []

/-! ## One update -/

/-- `d` has replayed these records over the orders and the positions of `c`, and
its account has the same login. -/
structure Replays (orders : List (Order × Bool)) (positions : List (Deal × Bool)) (c d : Client) :
    Prop where
  orders : d.state.orders = Replica.replay Order.ticket orders c.state.orders
  positions : d.state.positions = Replica.replay Deal.ticket positions c.state.positions
  login : d.state.account.login = c.state.account.login

theorem Replays.refl (c : Client) : Replays [] [] c c := ⟨rfl, rfl, rfl⟩

theorem Replays.trans {orders orders' : List (Order × Bool)}
    {positions positions' : List (Deal × Bool)} {c d e : Client}
    (h : Replays orders positions c d) (k : Replays orders' positions' d e) :
    Replays (orders ++ orders') (positions ++ positions') c e where
  orders := by rw [Replica.replay_append, ← h.orders, k.orders]
  positions := by rw [Replica.replay_append, ← h.positions, k.positions]
  login := k.login.trans h.login

theorem applySymbol_replays (c : Client) (s : Symbol) : Replays [] [] c (c.applySymbol s) := by
  unfold applySymbol
  split
  · exact ⟨rfl, rfl, rfl⟩
  · exact ⟨rfl, rfl, rfl⟩

theorem applyAccount_replays (c : Client) (account : AccountState) :
    Replays [] [] c (c.applyAccount account) := by
  unfold applyAccount
  by_cases hlogin : account.login = c.state.account.login
  · rw [if_pos hlogin]
    exact ⟨rfl, rfl, hlogin⟩
  · rw [if_neg hlogin]
    exact Replays.refl c

theorem applyOrder_replays (c : Client) (update : Change × Order) :
    Replays [orderRecord update] [] c (c.applyOrder update) where
  orders := by
    simp only [applyOrder, Replica.replay_cons, Replica.replay_nil, Replica.put, orderRecord,
      decide_eq_true_eq]
  positions := rfl
  login := rfl

theorem applyPosition_replays (c : Client) (position : Deal) :
    Replays [] [positionRecord position] c (c.applyPosition position) where
  orders := rfl
  positions := by
    simp only [applyPosition, Replica.replay_cons, Replica.replay_nil, Replica.put, positionRecord,
      decide_eq_true_eq]
  login := rfl

/-- The records of a list of steps are those of each step. -/
theorem foldl_replays {α : Type} {step : Client → α → Client} {orders : α → List (Order × Bool)}
    {positions : α → List (Deal × Bool)}
    (hstep : ∀ c a, Replays (orders a) (positions a) c (step c a)) (l : List α) (c : Client) :
    Replays (l.flatMap orders) (l.flatMap positions) c (l.foldl step c) := by
  induction l generalizing c with
  | nil => exact Replays.refl c
  | cons a l ih =>
    rw [List.flatMap_cons, List.flatMap_cons, List.foldl_cons]
    exact (hstep c a).trans (ih (step c a))

theorem applyPositionChange_replays (c : Client) (change : PositionChange) :
    Replays [] ((change.position :: change.relatedPositions).map positionRecord) c
      (c.applyPositionChange change) := by
  have hpositions := foldl_replays applyPosition_replays
    (change.position :: change.relatedPositions) c
  rw [List.flatMap_eq_nil_iff.mpr fun _ _ => rfl, ← List.map_eq_flatMap] at hpositions
  unfold applyPositionChange
  split
  · exact ⟨hpositions.orders, hpositions.positions, hpositions.login⟩
  · exact hpositions

/-- The account behind an update has replayed the records of the update. -/
theorem absorb_replays (c : Client) (update : Update) :
    Replays (orderRecords update) (positionRecords update) c (c.absorb update) := by
  have hnone : ∀ {α β : Type} (l : List α), (l.flatMap fun _ => ([] : List β)) = [] :=
    fun l => List.flatMap_eq_nil_iff.mpr fun _ _ => rfl
  cases update with
  | symbols symbols =>
    have h := foldl_replays applySymbol_replays symbols c
    rwa [hnone, hnone] at h
  | account accounts =>
    have h := foldl_replays applyAccount_replays accounts c
    rwa [hnone, hnone] at h
  | orders orders =>
    have h := foldl_replays applyOrder_replays orders c
    rwa [hnone, ← List.map_eq_flatMap] at h
  | positions changes =>
    have h := foldl_replays applyPositionChange_replays changes c
    rwa [hnone] at h
  | other => exact Replays.refl c

/-! ## The index of the symbols -/

/-- The symbols of the client are found through its index. -/
def Sound (c : Client) : Prop := Index.Indexes Symbol.id c.state.symbols c.symbolIds

/-- `d` has as many symbols as `c`, or more, and finds its own when `c` does. -/
structure Grows (c d : Client) : Prop where
  sound : c.Sound → d.Sound
  length : c.state.symbols.length ≤ d.state.symbols.length

theorem Grows.refl (c : Client) : Grows c c := ⟨id, Nat.le_refl _⟩

theorem Grows.trans {c d e : Client} (h : Grows c d) (k : Grows d e) : Grows c e :=
  ⟨k.sound ∘ h.sound, Nat.le_trans h.length k.length⟩

/-- A client with the same symbols. -/
theorem Grows.of_eq {c d : Client} (hsymbols : d.state.symbols = c.state.symbols)
    (hids : d.symbolIds = c.symbolIds) : Grows c d where
  sound h := by
    unfold Sound
    rw [hsymbols, hids]
    exact h
  length := Nat.le_of_eq (by rw [hsymbols])

theorem applySymbol_grows (c : Client) (s : Symbol) : Grows c (c.applySymbol s) := by
  have hupsert : ((c.applySymbol s).state.symbols, (c.applySymbol s).symbolIds) =
      Index.upsert Symbol.id (c.state.symbols, c.symbolIds) s := by
    unfold applySymbol Index.upsert
    cases c.symbolIds.lookup s.id with
    | some index => rfl
    | none => rfl
  refine ⟨fun h => ?_, ?_⟩
  · have hindexes := Index.indexes_upsert h s
    rw [← hupsert] at hindexes
    exact hindexes
  · have hlength := Index.length_le_upsert Symbol.id (c.state.symbols, c.symbolIds) s
    rw [← hupsert] at hlength
    exact hlength

theorem foldl_grows {α : Type} {step : Client → α → Client} (hstep : ∀ c a, Grows c (step c a))
    (l : List α) (c : Client) : Grows c (l.foldl step c) := by
  induction l generalizing c with
  | nil => exact Grows.refl c
  | cons a l ih => exact (hstep c a).trans (ih (step c a))

theorem applyPosition_grows (c : Client) (position : Deal) : Grows c (c.applyPosition position) :=
  Grows.of_eq rfl rfl

theorem applyPositionChange_grows (c : Client) (change : PositionChange) :
    Grows c (c.applyPositionChange change) := by
  have hpositions := foldl_grows applyPosition_grows
    (change.position :: change.relatedPositions) c
  unfold applyPositionChange
  split
  · exact hpositions.trans (Grows.of_eq rfl rfl)
  · exact hpositions

theorem applyOrder_grows (c : Client) (update : Change × Order) : Grows c (c.applyOrder update) :=
  Grows.of_eq rfl rfl

theorem applyAccount_grows (c : Client) (account : AccountState) :
    Grows c (c.applyAccount account) := by
  unfold applyAccount
  by_cases hlogin : account.login = c.state.account.login
  · rw [if_pos hlogin]
    exact Grows.of_eq rfl rfl
  · rw [if_neg hlogin]
    exact Grows.refl c

theorem absorb_grows (c : Client) (update : Update) : Grows c (c.absorb update) := by
  cases update with
  | symbols symbols => exact foldl_grows applySymbol_grows symbols c
  | account accounts => exact foldl_grows applyAccount_grows accounts c
  | orders orders => exact foldl_grows applyOrder_grows orders c
  | positions changes => exact foldl_grows applyPositionChange_grows changes c
  | other => exact Grows.refl c

/-! ## One message -/

/-- The client has this account and this index. -/
def HasAccount (state : SynchronizedState) (symbolIds : AList fun _ : Int => Nat) (c : Client) :
    Prop := c.state = state ∧ c.symbolIds = symbolIds

section Keeps

variable {state : SynchronizedState} {symbolIds : AList fun _ : Int => Nat}

theorem subscribe_keeps (now : Nat) (names : List String) :
    Act.Preserves (HasAccount state symbolIds) (subscribe now names) :=
  .bind .get fun _ => .bind (.ofExcept _) fun _ => .bind (.ofExcept _) fun _ =>
    .bind (.modify fun _ h => h) fun _ => .bind .get fun _ =>
    .bind (.zoom fun _ h => h) fun _ => .modify fun _ h => h

theorem follow_keeps (now : Nat) (update : Update) :
    Act.Preserves (HasAccount state symbolIds) (follow now update) := by
  cases update with
  | positions changes => exact .bind .get fun _ => .ite (.pure _) (subscribe_keeps now _)
  | symbols _ => exact .pure _
  | account _ => exact .pure _
  | orders _ => exact .pure _
  | other => exact .pure _

theorem applyQuote_keeps (command : UInt8) (row : QuoteRow) :
    Act.Preserves (HasAccount state symbolIds) (applyQuote command row) :=
  .bind .get fun _ => .bind (.ofExcept _) fun _ => .bind (.ofExcept _) fun _ =>
    .bind (.modify fun _ h => h) fun _ => .bind .get fun _ =>
    .ite (.ite (.fail _) (.modify fun _ h => h)) (.pure _)

theorem applyDepth_keeps (record : DepthRecord) :
    Act.Preserves (HasAccount state symbolIds) (applyDepth record) :=
  .bind .get fun _ => .ite (.fail _) (.modify fun _ h => h)

end Keeps

/-- A message that is applied changes the account by its update, and a message
without one leaves it as it is. -/
theorem apply_eq_ok {now : Nat} {m : Message} {c d : Client} (h : apply now m c = (.ok (), d)) :
    ∃ e, HasAccount e.state e.symbolIds d ∧
      ((updates [m] = [] ∧ e = c) ∨ ∃ update, updates [m] = [update] ∧ e = c.absorb update) := by
  have hkept : ∀ {x : Method Unit} {e : Client},
      Act.Preserves (HasAccount e.state e.symbolIds) x → x e = (.ok (), d) →
      HasAccount e.state e.symbolIds d := by
    intro x e hx hrun
    have := hx.snd (s := e) ⟨rfl, rfl⟩
    rwa [hrun] at this
  unfold apply at h
  by_cases hquotes : m.command = 50 ∨ m.command = 51
  · rw [if_pos hquotes] at h
    refine ⟨c, hkept (.bind (.ofExcept _) fun rows => .forM (applyQuote_keeps m.command) rows) h,
      Or.inl ⟨?_, rfl⟩⟩
    have hne : m.command ≠ 55 := by
      rcases hquotes with hc | hc
      all_goals
        rw [hc]
        decide
    simp [updates, hne]
  · rw [if_neg hquotes] at h
    by_cases hdepth : m.command = 52
    · rw [if_pos hdepth] at h
      refine ⟨c, hkept (.bind (.ofExcept _) fun records => .bind .get fun _ =>
        .ite (.fail _) (.forM applyDepth_keeps records)) h, Or.inl ⟨?_, rfl⟩⟩
      have hne : m.command ≠ 55 := by
        rw [hdepth]
        decide
      simp [updates, hne]
    · rw [if_neg hdepth] at h
      by_cases hupdate : m.command = 55
      · rw [if_pos hupdate] at h
        obtain ⟨update, hdecode, h⟩ := Act.ofExcept_bind_eq_ok.mp h
        obtain ⟨_, _, hmodify, h⟩ := Act.bind_eq_ok.mp h
        cases hmodify
        refine ⟨c.absorb update, hkept (follow_keeps now update) h, Or.inr ⟨update, ?_, rfl⟩⟩
        simp [updates, hupdate, hdecode]
      · rw [if_neg hupdate] at h
        cases h
        exact ⟨c, ⟨rfl, rfl⟩, Or.inl ⟨by simp [updates, hupdate], rfl⟩⟩

/-! ## Runs -/

/-- Apply the messages in order, each at its instant. -/
def applyAll (messages : List (Nat × Message)) : Method Unit :=
  messages.forM fun m => apply m.1 m.2

/-- The order records of the messages. -/
def allOrders (messages : List (Nat × Message)) : List (Order × Bool) :=
  (updates (messages.map Prod.snd)).flatMap orderRecords

/-- The position records of the messages. -/
def allPositions (messages : List (Nat × Message)) : List (Deal × Bool) :=
  (updates (messages.map Prod.snd)).flatMap positionRecords

theorem apply_spec {now : Nat} {m : Message} {c d : Client} (h : apply now m c = (.ok (), d)) :
    Replays (allOrders [(now, m)]) (allPositions [(now, m)]) c d ∧ Grows c d := by
  obtain ⟨e, ⟨hstate, hids⟩, hcases⟩ := apply_eq_ok h
  have hsame : ∀ {orders positions}, Replays orders positions c e →
      Replays orders positions c d := by
    intro orders positions hreplays
    exact ⟨hstate ▸ hreplays.orders, hstate ▸ hreplays.positions, hstate ▸ hreplays.login⟩
  have hgrows : Grows e d := Grows.of_eq (by rw [hstate]) hids
  unfold allOrders allPositions
  rw [List.map_singleton]
  rcases hcases with ⟨hnone, he⟩ | ⟨update, hupdate, he⟩
  · rw [hnone]
    rw [he] at hsame hgrows
    exact ⟨hsame (Replays.refl c), hgrows⟩
  · rw [hupdate, List.flatMap_singleton, List.flatMap_singleton]
    rw [he] at hsame hgrows
    exact ⟨hsame (absorb_replays c update), (absorb_grows c update).trans hgrows⟩

theorem applyAll_cons {m : Nat × Message} {messages : List (Nat × Message)} {c d : Client}
    (h : applyAll (m :: messages) c = (.ok (), d)) :
    ∃ e, apply m.1 m.2 c = (.ok (), e) ∧ applyAll messages e = (.ok (), d) := by
  obtain ⟨_, e, hfirst, hrest⟩ := Act.bind_eq_ok.mp h
  exact ⟨e, hfirst, hrest⟩

theorem applyAll_spec {messages : List (Nat × Message)} {c d : Client}
    (h : applyAll messages c = (.ok (), d)) :
    Replays (allOrders messages) (allPositions messages) c d ∧ Grows c d := by
  induction messages generalizing c with
  | nil =>
    cases h
    exact ⟨Replays.refl _, Grows.refl _⟩
  | cons m messages ih =>
    obtain ⟨e, hfirst, hrest⟩ := applyAll_cons h
    obtain ⟨hreplays, hgrows⟩ := apply_spec hfirst
    obtain ⟨hreplays', hgrows'⟩ := ih hrest
    refine ⟨?_, hgrows.trans hgrows'⟩
    have hall := hreplays.trans hreplays'
    rw [allOrders, allOrders, ← List.flatMap_append, allPositions, allPositions,
      ← List.flatMap_append, updates, updates, ← List.flatMap_append] at hall
    exact hall

theorem applyAll_append {front back : List (Nat × Message)} {c d : Client}
    (h : applyAll (front ++ back) c = (.ok (), d)) :
    ∃ e, applyAll front c = (.ok (), e) ∧ applyAll back e = (.ok (), d) := by
  induction front generalizing c with
  | nil => exact ⟨c, rfl, h⟩
  | cons m front ih =>
    obtain ⟨e, hfirst, hrest⟩ := applyAll_cons h
    obtain ⟨f, hfront, hback⟩ := ih hrest
    exact ⟨f, (Act.bind_of_ok hfirst).trans hfront, hback⟩

/-- Behind any messages that are applied, the orders and the positions hold the
last record of each ticket, the index finds every symbol, and the account is the
same. -/
theorem account_replica {session : Session} {state : SynchronizedState} {accountMode : String}
    {now : Nat} {messages : List (Nat × Message)} {c : Client}
    (horders : (state.orders.map Order.ticket).Nodup)
    (hpositions : (state.positions.map Deal.ticket).Nodup)
    (hrun : applyAll messages (synchronized session state accountMode now) = (.ok (), c)) :
    (c.state.orders.map Order.ticket).Nodup ∧ (c.state.positions.map Deal.ticket).Nodup ∧
      (∀ order, order ∈ c.state.orders ↔
        Replica.Holds Order.ticket (allOrders messages) state.orders order) ∧
      (∀ position, position ∈ c.state.positions ↔
        Replica.Holds Deal.ticket (allPositions messages) state.positions position) ∧
      (∀ id index, c.symbolIds.lookup id = some index →
        ∃ s, c.state.symbols[index]? = some s ∧ s.id = id) ∧
      (∀ s ∈ c.state.symbols, s.id ∈ c.symbolIds) ∧
      (∀ row, c.quoteSymbol row ≠ reject "index out of bounds") ∧
      (∀ front back, messages = front ++ back →
        ∃ d, applyAll front (synchronized session state accountMode now) = (.ok (), d) ∧
          d.state.symbols.length ≤ c.state.symbols.length) ∧
      c.state.account.login = state.account.login := by
  obtain ⟨hreplays, hgrows⟩ := applyAll_spec hrun
  have hsound : c.Sound := hgrows.sound (Index.indexes_collect state.symbols)
  refine ⟨?_, ?_, ?_, ?_, hsound.found, hsound.covers, ?_, ?_, hreplays.login⟩
  · rw [hreplays.orders]
    exact Replica.nodup_replay _ horders
  · rw [hreplays.positions]
    exact Replica.nodup_replay _ hpositions
  · intro order
    rw [hreplays.orders]
    exact Replica.mem_replay
  · intro position
    rw [hreplays.positions]
    exact Replica.mem_replay
  · intro row
    unfold quoteSymbol
    split
    · exact fun h => absurd (congrArg ProtocolError.message (Except.error.inj h)) (by decide)
    · split
      · exact fun h => absurd (congrArg ProtocolError.message (Except.error.inj h)) (by decide)
      · rename_i index hlookup
        obtain ⟨s, hs, -⟩ := hsound.found _ _ hlookup
        rw [hs]
        exact fun h => nomatch h
  · intro front back hsplit
    rw [hsplit] at hrun
    obtain ⟨d, hfront, hback⟩ := applyAll_append hrun
    exact ⟨d, hfront, (applyAll_spec hback).2.length⟩

/-- An account without records. -/
def sampleState : SynchronizedState where
  account :=
    { login := 12345678, balance := .zero, credit := .zero, blocked := .zero, leverage := 100,
      tradeFlags := 0 }
  terms := none
  symbols := []
  orders := []
  positions := []
  serverTimezoneMinutes := none
  accessPoints := []

def heldOrder (ticket : Nat) : Order where
  ticket := ticket
  symbol := ""
  kind := 0
  state := 0
  time := 0
  historyStamp := 0
  timeDone := 0
  expiration := 0
  price := .zero
  stopLimit := .zero
  sl := .zero
  tp := .zero
  volume := 0
  volumeInitial := 0
  magic := 0
  comment := ""

def heldPosition (ticket : Nat) : Deal where
  ticket := ticket
  order := 0
  position := ticket
  symbol := ""
  kind := 0
  entry := 0
  time := 0
  timeMs := 0
  priceOpen := .zero
  price := .zero
  sl := .zero
  tp := .zero
  volume := 100
  profit := .zero
  commission := .zero
  swap := .zero
  magic := 0
  comment := ""
  profitRate := .zero
  marginRate := .zero
  contractSize := .zero
  moneyDigits := 0

/-- The account with the orders 7 and 8 and the position 1. -/
def sampleSnapshot : SynchronizedState :=
  { sampleState with orders := [heldOrder 7, heldOrder 8], positions := [heldPosition 1] }

/-- The header of an order or of a position in an update. -/
def transactionBytes (action : Nat) : Bytes :=
  List.replicate 4 0 ++ LittleEndian.encode 4 action ++ List.replicate 144 0

/-- A position, as the record of a deal. -/
def positionBytes (ticket volume : Nat) : Bytes :=
  LittleEndian.encode 8 ticket ++ List.replicate 216 0 ++ LittleEndian.encode 8 volume ++
    List.replicate 56 0 ++ LittleEndian.encode 8 ticket ++ List.replicate 376 0

/-- The order 7 is deleted and the order 9 is added, and then the position 2 is there and the
position 1 has no volume any more. -/
def sampleUpdates : List (Nat × Message) :=
  [(0,
    { command := 55
      sequence := 1
      payload := 31 :: (LittleEndian.encode 4 2 ++ transactionBytes 2 ++
        LittleEndian.encode 8 7 ++ List.replicate 628 0 ++ transactionBytes 0 ++
        LittleEndian.encode 8 9 ++ List.replicate 628 0)
      fragments := 1 }),
    (0,
    { command := 55
      sequence := 2
      payload := 33 :: (LittleEndian.encode 4 1 ++ transactionBytes 1 ++ List.replicate 672 0 ++
        positionBytes 2 100 ++ List.replicate 256 0 ++ LittleEndian.encode 4 0 ++
        LittleEndian.encode 4 1 ++ positionBytes 1 0)
      fragments := 1 })]

/-- Every ticket has its last record, from the snapshot or from the updates. -/
theorem account_replica_sample :
    ∃ c, applyAll sampleUpdates (synchronized (.connect [] []) sampleSnapshot "demo" 0) =
        (.ok (), c) ∧
      (allOrders sampleUpdates).map (fun record => (record.1.ticket, record.2)) =
        [(7, false), (9, true)] ∧
      (allPositions sampleUpdates).map (fun record => (record.1.ticket, record.2)) =
        [(2, true), (1, false)] ∧
      c.state.orders.map Order.ticket = [8, 9] ∧ c.state.positions.map Deal.ticket = [2] ∧
      (∀ order, order ∈ c.state.orders ↔
        Replica.Holds Order.ticket (allOrders sampleUpdates) [heldOrder 7, heldOrder 8] order) ∧
      (∀ position, position ∈ c.state.positions ↔
        Replica.Holds Deal.ticket (allPositions sampleUpdates) [heldPosition 1] position) ∧
      c.state.account.login = 12345678 := by
  have hok : (applyAll sampleUpdates
      (synchronized (.connect [] []) sampleSnapshot "demo" 0)).1 = .ok () := by decide +kernel
  have htickets : ((applyAll sampleUpdates
        (synchronized (.connect [] []) sampleSnapshot "demo" 0)).2.state.orders.map Order.ticket,
      (applyAll sampleUpdates
        (synchronized (.connect [] []) sampleSnapshot "demo" 0)).2.state.positions.map
          Deal.ticket) = ([8, 9], [2]) := by decide +kernel
  rcases hrun : applyAll sampleUpdates
    (synchronized (.connect [] []) sampleSnapshot "demo" 0) with ⟨result, c⟩
  rw [hrun] at hok htickets
  cases hok
  obtain ⟨horders, hpositions⟩ := Prod.mk.inj htickets
  obtain ⟨-, -, hheld, hheld', -, -, -, -, hlogin⟩ :=
    account_replica (by decide) (by decide) hrun
  exact ⟨c, rfl, by decide +kernel, by decide +kernel, horders, hpositions, hheld, hheld', hlogin⟩

end Client

end Mt5Open.Native
