import Mt5Open.Client.Account
import Mt5Open.Lib.Latest
import Mt5Open.Lib.Run
import Mt5Open.Native.Margin
import Mathlib.Data.List.Infix

/-!
# The quotes of the client

Commands 50 and 51 carry rows, and each row changes the cached quote of one symbol.  A side
that is absent, zero or negative stays what it was, and a quote with both sides is offered
to the consumer.

The messages and the calls of `take_quotes` are the steps of a run.  `exec_stepsOf` breaks a
run into steps of single rows, and `Follows` is what holds after any of them: the cached quote
of a symbol is made of the last positive side of each kind, and the quotes that were handed out
and those that wait are the offered ones in the order of the rows.
-/

namespace Mt5Open.Native

open Lib

/-! ## The fields of a row -/

/-- The decoder reads an item for each entry, and the items keep the names of the entries. -/
theorem map_fst_of_each {α β γ σ ε : Type} {x : α → Decoder ε σ γ} {name : α → β}
    {entries : List α} {s t : σ} {items : List (β × γ)}
    (h : Decoder.each (fun a => do
      let v ← x a
      return (name a, v)) entries s = .ok (items, t)) :
    items.map Prod.fst = entries.map name := by
  induction entries generalizing s t items with
  | nil =>
    obtain ⟨hitems, -⟩ := Decoder.pure_eq_ok.mp h
    rw [← hitems]
    rfl
  | cons a entries ih =>
    obtain ⟨item, u, hitem, h⟩ := Decoder.bind_eq_ok.mp h
    obtain ⟨rest, w, hrest, h⟩ := Decoder.bind_eq_ok.mp h
    obtain ⟨v, _, -, hv⟩ := Decoder.bind_eq_ok.mp hitem
    obtain ⟨hitems, -⟩ := Decoder.pure_eq_ok.mp h
    obtain ⟨hv, -⟩ := Decoder.pure_eq_ok.mp hv
    rw [← hitems, ← hv, List.map_cons, List.map_cons, ih hrest]

theorem isSome_lookup {α β : Type} [DecidableEq α] {items : List (α × β)} {a : α} :
    (items.lookup a).isSome ↔ a ∈ items.map Prod.fst := by
  induction items with
  | nil => simp
  | cons item items ih =>
    rw [List.lookup_cons, List.map_cons, List.mem_cons]
    by_cases h : a = item.1
    · simp [h]
    · have hne : (a == item.1) = false := by simpa using h
      rw [hne]
      simp [h, ih]

/-- The named fields of a row are those of its mask. -/
def QuoteRow.FollowsMask (row : QuoteRow) (command : UInt8) : Prop :=
  if command = 50 then
    row.live.map Prod.fst =
      (LIVE_FIELDS.filter fun field => row.mask.testBit field.1).map fun field => field.2.1
  else row.fields.map Prod.fst = snapshotOrder.filter row.mask.testBit

theorem liveRow_followsMask {start : Nat} {symbolId : Int} {r t : BitReader} {row : QuoteRow}
    (h : liveRow start symbolId r = .ok (row, t)) : row.FollowsMask 50 := by
  obtain ⟨seconds, r, -, h⟩ := Decoder.bind_eq_ok.mp h
  obtain ⟨mask, r, -, h⟩ := Decoder.bind_eq_ok.mp h
  obtain ⟨live, r, hlive, h⟩ := Decoder.bind_eq_ok.mp h
  obtain ⟨extensions, r, -, h⟩ := Decoder.bind_eq_ok.mp h
  obtain ⟨_, r, -, h⟩ := Decoder.bind_eq_ok.mp h
  obtain ⟨hrow, -⟩ := Decoder.pure_eq_ok.mp h
  unfold QuoteRow.FollowsMask
  rw [if_pos rfl, ← hrow]
  exact map_fst_of_each hlive

theorem snapshotRow_followsMask {start : Nat} {symbolId : Int} {r t : BitReader} {row : QuoteRow}
    (h : snapshotRow start symbolId r = .ok (row, t)) : row.FollowsMask 51 := by
  obtain ⟨mask, r, -, h⟩ := Decoder.bind_eq_ok.mp h
  obtain ⟨seconds, r, -, h⟩ := Decoder.bind_eq_ok.mp h
  obtain ⟨fields, r, hfields, h⟩ := Decoder.bind_eq_ok.mp h
  obtain ⟨extensions, r, -, h⟩ := Decoder.bind_eq_ok.mp h
  obtain ⟨masks, r, -, h⟩ := Decoder.bind_eq_ok.mp h
  obtain ⟨_, r, -, h⟩ := Decoder.bind_eq_ok.mp h
  obtain ⟨hrow, -⟩ := Decoder.pure_eq_ok.mp h
  unfold QuoteRow.FollowsMask
  rw [if_neg (by decide), ← hrow]
  have hnames := map_fst_of_each hfields
  rwa [List.map_id'] at hnames

theorem quoteRow_followsMask {command : UInt8} (hcommand : command = 50 ∨ command = 51)
    {r t : BitReader} {row : QuoteRow} (h : quoteRow command r = .ok (row, t)) :
    row.FollowsMask command := by
  obtain ⟨inner, r, hinner, h⟩ := Decoder.bind_eq_ok.mp h
  obtain ⟨padding, r, -, h⟩ := Decoder.bind_eq_ok.mp h
  obtain ⟨hrow, -⟩ := Decoder.pure_eq_ok.mp h
  obtain ⟨start, _, -, hinner⟩ := Decoder.bind_eq_ok.mp hinner
  obtain ⟨symbolId, _, -, hinner⟩ := Decoder.bind_eq_ok.mp hinner
  have hfollows : inner.FollowsMask command := by
    rcases hcommand with hc | hc
    · rw [hc] at hinner ⊢
      exact liveRow_followsMask hinner
    · rw [hc] at hinner ⊢
      exact snapshotRow_followsMask hinner
  rw [← hrow]
  exact hfollows

theorem decodeQuotes_followsMask {data : Bytes} {command : UInt8} {rows : List QuoteRow}
    (h : decodeQuotes data command = .ok rows) : ∀ row ∈ rows, row.FollowsMask command := by
  unfold decodeQuotes at h
  by_cases hcommand : command ≠ 50 ∧ command ≠ 51
  · rw [if_pos hcommand] at h
    cases h
  rw [if_neg hcommand] at h
  have hcommand : command = 50 ∨ command = 51 := by
    by_cases hlive : command = 50
    · exact Or.inl hlive
    · exact Or.inr (by simpa [hlive] using hcommand)
  -- The loop adds rows that follow their masks behind those that it has.
  have hloop : ∀ s : List QuoteRow × BitReader, (∀ row ∈ s.1, row.FollowsMask command) →
      ∀ rows, (quoteLoop command).run s = .ok rows → ∀ row ∈ rows, row.FollowsMask command := by
    refine (quoteLoop command).run_rule (P := fun s result =>
      (∀ row ∈ s.1, row.FollowsMask command) →
        ∀ rows, result = .ok rows → ∀ row ∈ rows, row.FollowsMask command) ?_ ?_
    · intro s result hbody hrows rows hresult
      simp only [quoteLoop] at hbody
      split at hbody
      · split at hbody
        · cases Sum.inr.inj hbody
          cases hresult
        · cases hbody
      · cases Sum.inr.inj hbody
        cases hresult
        exact hrows
    · intro s t result hbody hrest hrows
      simp only [quoteLoop] at hbody
      split at hbody
      · split at hbody
        · cases hbody
        · rename_i row rest hrow
          cases Sum.inl.inj hbody
          apply hrest
          intro other hother
          rcases List.mem_append.mp hother with hother | hother
          · exact hrows other hother
          · rw [List.mem_singleton.mp hother]
            exact quoteRow_followsMask hcommand hrow
      · cases hbody
  exact hloop ([], .new data) (fun row hrow => nomatch hrow) rows h

namespace Client

/-- Each name stands for one field. -/
theorem mem_live_names {p : Nat × String × Nat × Bool → Bool} (field : Nat × String × Nat × Bool)
    (hfield : field ∈ LIVE_FIELDS) :
    field.2.1 ∈ (LIVE_FIELDS.filter p).map (fun f => f.2.1) ↔ p field := by
  have hnodup : (LIVE_FIELDS.map fun f => f.2.1).Nodup := by decide
  constructor
  · intro h
    obtain ⟨other, hother, hname⟩ := List.mem_map.mp h
    obtain ⟨hmem, hp⟩ := List.mem_filter.mp hother
    rw [← List.inj_on_of_nodup_map hnodup hmem hfield hname]
    exact hp
  · intro h
    exact List.mem_map.mpr ⟨field, List.mem_filter.mpr ⟨hfield, h⟩, rfl⟩

/-- The bits of the mask for the bid, the ask and the milliseconds. -/
def quoteBits (command : UInt8) : Nat × Nat × Nat := if command = 50 then (0, 1, 6) else (0, 3, 26)

/-- A field of a row is there when its bit is. -/
def Announced (command : UInt8) (row : QuoteRow) : Prop :=
  ((quoteFieldsOf command row).1.isSome ↔ row.mask.testBit (quoteBits command).1) ∧
    ((quoteFieldsOf command row).2.1.isSome ↔ row.mask.testBit (quoteBits command).2.1) ∧
    ((quoteFieldsOf command row).2.2.isSome ↔ row.mask.testBit (quoteBits command).2.2)

theorem announced {command : UInt8} {row : QuoteRow} (h : row.FollowsMask command) :
    Announced command row := by
  unfold QuoteRow.FollowsMask at h
  unfold Announced quoteFieldsOf quoteBits QuoteRow.liveGet QuoteRow.fieldGet
  by_cases hlive : command = 50
  · rw [if_pos hlive] at h
    simp only [if_pos hlive, isSome_lookup, h]
    refine ⟨?_, ?_, ?_⟩
    · exact mem_live_names (0, "bid_integer", 64, true) (by decide)
    · exact mem_live_names (1, "ask_integer", 64, true) (by decide)
    · exact mem_live_names (6, "millisecond_component", 64, true) (by decide)
  · rw [if_neg hlive] at h
    simp only [if_neg hlive, isSome_lookup, h, List.mem_filter]
    have hmem : 0 ∈ snapshotOrder ∧ 3 ∈ snapshotOrder ∧ 26 ∈ snapshotOrder := by decide
    simp [hmem]

/-! ## Steps -/

/-- What happens to the quotes: a row of a message of a command is applied, or the quotes
are taken. -/
inductive QuoteStep where
  | row (command : UInt8) (row : QuoteRow)
  | take

/-- A message is applied at an instant, or the quotes are taken. -/
inductive QuoteEvent where
  | message (now : Nat) (m : Message)
  | take

/-- A client, with the quotes that it has handed out. -/
abbrev Watched := Client × List Quote

/-- `take_quotes` hands out the quotes that wait. -/
def handOut (w : Watched) : Watched := (w.1.takeQuotes.2, w.2 ++ w.1.takeQuotes.1)

/-- Apply something without an error. -/
def perform (x : Method Unit) (w : Watched) : Option Watched :=
  match x w.1 with
  | (.ok (), c) => some (c, w.2)
  | (.error _, _) => none

def quoteStep (w : Watched) : QuoteStep → Option Watched
  | .row command row => perform (applyQuote command row) w
  | .take => some (handOut w)

def quoteEvent (w : Watched) : QuoteEvent → Option Watched
  | .message now m => perform (apply now m) w
  | .take => some (handOut w)

/-- The rows of a message, one step each. -/
def stepsOfEvent : QuoteEvent → List QuoteStep
  | .message _ m =>
    match decodeQuotes m.payload m.command with
    | .ok rows => rows.map (.row m.command)
    | .error _ => []
  | .take => [.take]

def stepsOf (events : List QuoteEvent) : List QuoteStep := events.flatMap stepsOfEvent

theorem perform_eq_some {x : Method Unit} {w u : Watched} :
    perform x w = some u ↔ x w.1 = (.ok (), u.1) ∧ u.2 = w.2 := by
  unfold perform
  rcases hx : x w.1 with ⟨e | _, c⟩
  · simp
  · constructor
    · intro h
      cases h
      exact ⟨rfl, rfl⟩
    · intro h
      obtain ⟨hc, hgiven⟩ := h
      cases hc
      rw [← hgiven]

/-- The rows of a message are applied one after the other. -/
theorem exec_rows {command : UInt8} {rows : List QuoteRow} {w : Watched} {d : Client}
    (h : rows.forM (applyQuote command) w.1 = (.ok (), d)) :
    Run.exec quoteStep w (rows.map (.row command)) = some (d, w.2) := by
  induction rows generalizing w with
  | nil =>
    cases h
    rfl
  | cons row rows ih =>
    obtain ⟨_, c, hrow, hrest⟩ := Act.bind_eq_ok.mp h
    refine Run.exec_cons_eq_some.mpr ⟨(c, w.2), perform_eq_some.mpr ⟨hrow, rfl⟩, ?_⟩
    exact ih (w := (c, w.2)) hrest

theorem exec_stepsOfEvent {event : QuoteEvent} {w u : Watched}
    (hquotes : ∀ now m, event = .message now m → m.command = 50 ∨ m.command = 51)
    (h : quoteEvent w event = some u) : Run.exec quoteStep w (stepsOfEvent event) = some u := by
  cases event with
  | take => exact Run.exec_cons_eq_some.mpr ⟨u, h, rfl⟩
  | message now m =>
    obtain ⟨happly, hgiven⟩ := perform_eq_some.mp h
    rw [apply, if_pos (hquotes now m rfl)] at happly
    obtain ⟨rows, hrows, happly⟩ := Act.ofExcept_bind_eq_ok.mp happly
    have hexec := exec_rows happly
    rw [← hgiven] at hexec
    simp only [stepsOfEvent, hrows]
    exact hexec

/-- A run of messages is a run of their rows. -/
theorem exec_stepsOf {events : List QuoteEvent} {w u : Watched}
    (hquotes : ∀ now m, .message now m ∈ events → m.command = 50 ∨ m.command = 51)
    (h : Run.exec quoteEvent w events = some u) :
    Run.exec quoteStep w (stepsOf events) = some u := by
  induction events generalizing w with
  | nil => exact h
  | cons event events ih =>
    obtain ⟨v, hevent, hrest⟩ := Run.exec_cons_eq_some.mp h
    have hfirst := exec_stepsOfEvent
      (fun now m heq => hquotes now m (heq ▸ List.mem_cons_self)) hevent
    rw [stepsOf, List.flatMap_cons, Run.exec_append, hfirst]
    exact ih (fun now m hmem => hquotes now m (List.mem_cons_of_mem _ hmem)) hrest

/-! ## One row -/

/-- The time of a row. -/
def rowTime (command : UInt8) (row : QuoteRow) : Int :=
  row.seconds * 1000 + (quoteFieldsOf command row).2.2.getD 0

theorem quoteTime_eq_ok {command : UInt8} {row : QuoteRow} {timeMs : Int}
    (h : quoteTime command row = .ok timeMs) : timeMs = rowTime command row := by
  unfold quoteTime at h
  simp only at h
  split at h
  · cases h
  · cases h
    rfl

/-- The quotes that a row offers. -/
def offering (quote : Quote) : List Quote := if 0 < quote.bid ∧ 0 < quote.ask then [quote] else []

theorem offerQuote_eq_ok {quote : Quote} {c d : Client} (h : offerQuote quote c = (.ok (), d)) :
    d = { c with changedQuotes := c.changedQuotes ++ offering quote } := by
  unfold offerQuote at h
  rw [Act.get_bind] at h
  unfold offering
  by_cases hsides : 0 < quote.bid ∧ 0 < quote.ask
  · rw [if_pos hsides] at h ⊢
    split at h
    · cases h
    · cases h
      rfl
  · rw [if_neg hsides] at h ⊢
    cases h
    rw [List.append_nil]

/-- A row that is applied changes the quote of its symbol and offers it. -/
theorem applyQuote_eq_ok {command : UInt8} {row : QuoteRow} {c d : Client}
    (h : applyQuote command row c = (.ok (), d)) :
    ∃ s, c.quoteSymbol row = .ok s ∧
      d = { c with
        quotes := c.quotes.insert s.name (c.updatedQuote s command row (rowTime command row))
        changedQuotes := c.changedQuotes ++
          offering (c.updatedQuote s command row (rowTime command row)) } := by
  unfold applyQuote at h
  rw [Act.get_bind] at h
  obtain ⟨s, hs, h⟩ := Act.ofExcept_bind_eq_ok.mp h
  obtain ⟨timeMs, htime, h⟩ := Act.ofExcept_bind_eq_ok.mp h
  obtain ⟨_, e, hmodify, hoffer⟩ := Act.bind_eq_ok.mp h
  rw [quoteTime_eq_ok htime] at hmodify hoffer
  cases hmodify
  exact ⟨s, hs, offerQuote_eq_ok hoffer⟩

/-- The symbol of a row is the one with its id. -/
theorem quoteSymbol_eq_ok {c : Client} (hsound : c.Sound) {row : QuoteRow} {s : Symbol}
    (h : c.quoteSymbol row = .ok s) : s ∈ c.state.symbols ∧ s.id = row.symbolId := by
  unfold quoteSymbol at h
  split at h
  · cases h
  · split at h
    · cases h
    · rename_i index hindex
      obtain ⟨a, ha, hid⟩ := hsound.found _ _ hindex
      simp only [ha] at h
      cases h
      exact ⟨List.mem_of_getElem? ha, hid⟩

/-! ## The quotes behind a run -/

/-- The rows of a symbol. -/
def rowsOf (s : Symbol) (steps : List QuoteStep) : List (UInt8 × QuoteRow) :=
  steps.filterMap fun
    | .row command row => if row.symbolId = s.id then some (command, row) else none
    | .take => none

/-- A side of a quote behind some rows: the last positive value, or what it was before. -/
def carried (old : ℚ) (digits : Int) (side : UInt8 × QuoteRow → Option Int)
    (rows : List (UInt8 × QuoteRow)) : ℚ :=
  match latest (fun row => (side row).filter (0 < ·)) rows with
  | some v => v / (10 : ℚ) ^ digits
  | none => old

def bidOf (row : UInt8 × QuoteRow) : Option Int := (quoteFieldsOf row.1 row.2).1

def askOf (row : UInt8 × QuoteRow) : Option Int := (quoteFieldsOf row.1 row.2).2.1

/-- The quote of a symbol before any row: it has no sides if it has never been quoted. -/
def quoteBefore (c : Client) (s : Symbol) : Quote :=
  (c.quotes.lookup s.name).getD { symbol := s.name, timeMs := 0, bid := 0, ask := 0 }

/-- The cached quote of a symbol behind a run. -/
def quoteAfter (c : Client) (s : Symbol) (steps : List QuoteStep) : Option Quote :=
  match (rowsOf s steps).getLast? with
  | none => c.quotes.lookup s.name
  | some last =>
    some { c.quoteBefore s with
      timeMs := rowTime last.1 last.2
      bid := carried (c.quoteBefore s).bid s.digits bidOf (rowsOf s steps)
      ask := carried (c.quoteBefore s).ask s.digits askOf (rowsOf s steps) }

/-- The quote that the last step of a run offers: the one of its row, when both sides are
positive. -/
def offered (c : Client) (steps : List QuoteStep) : Option Quote :=
  match steps.getLast? with
  | some (.row _ row) =>
    (c.state.symbols.find? fun s => s.id = row.symbolId).bind fun s =>
      (c.quoteAfter s steps).filter fun q => 0 < q.bid ∧ 0 < q.ask
  | _ => none

theorem carried_concat (old : ℚ) (digits : Int) (side : UInt8 × QuoteRow → Option Int)
    (rows : List (UInt8 × QuoteRow)) (row : UInt8 × QuoteRow) :
    carried old digits side (rows ++ [row]) =
      price (carried old digits side rows) digits (side row) := by
  unfold carried price
  rw [latest_concat]
  cases hside : side row with
  | none => rfl
  | some v =>
    by_cases hpos : 0 < v
    · simp [Option.filter_some, hpos]
    · simp [Option.filter_some, hpos]

theorem rowsOf_concat_row (s : Symbol) (steps : List QuoteStep) (command : UInt8)
    (row : QuoteRow) :
    rowsOf s (steps ++ [.row command row]) =
      rowsOf s steps ++ if row.symbolId = s.id then [(command, row)] else [] := by
  unfold rowsOf
  rw [List.filterMap_append]
  by_cases h : row.symbolId = s.id
  · simp [h]
  · simp [h]

theorem rowsOf_concat_take (s : Symbol) (steps : List QuoteStep) :
    rowsOf s (steps ++ [.take]) = rowsOf s steps := by
  unfold rowsOf
  rw [List.filterMap_append]
  exact List.append_nil _

theorem quoteAfter_congr {c : Client} {s : Symbol} {steps steps' : List QuoteStep}
    (h : rowsOf s steps' = rowsOf s steps) : c.quoteAfter s steps' = c.quoteAfter s steps := by
  unfold quoteAfter
  rw [h]

/-- A row of the symbol updates its quote. -/
theorem quoteAfter_concat {c e : Client} {s : Symbol} {steps : List QuoteStep} {command : UInt8}
    {row : QuoteRow} (hrow : row.symbolId = s.id)
    (h : e.quotes.lookup s.name = c.quoteAfter s steps) :
    c.quoteAfter s (steps ++ [.row command row]) =
      some (e.updatedQuote s command row (rowTime command row)) := by
  unfold quoteAfter updatedQuote
  rw [rowsOf_concat_row, if_pos hrow, List.getLast?_concat, carried_concat, carried_concat, h]
  unfold quoteAfter
  cases hlast : (rowsOf s steps).getLast? with
  | none =>
    rw [List.getLast?_eq_none_iff.mp hlast]
    simp only [quoteBefore, carried, latest_nil, bidOf, askOf]
    cases c.quotes.lookup s.name with
    | none => rfl
    | some q => rfl
  | some last => rfl

/-- What holds behind the steps of a run: the replica is as it was, each symbol has the quote
of its rows, and what was handed out and what waits are the offered quotes. -/
structure Follows (c : Client) (steps : List QuoteStep) (w : Watched) : Prop where
  state : w.1.state = c.state
  symbolIds : w.1.symbolIds = c.symbolIds
  quotes : ∀ s ∈ c.state.symbols, w.1.quotes.lookup s.name = c.quoteAfter s steps
  others : ∀ name ∉ c.state.symbols.map Symbol.name,
    w.1.quotes.lookup name = c.quotes.lookup name
  offers : w.2 ++ w.1.changedQuotes = c.changedQuotes ++ steps.inits.filterMap c.offered

theorem inits_concat {α : Type} (l : List α) (a : α) :
    (l ++ [a]).inits = l.inits ++ [l ++ [a]] := by
  rw [List.inits_append]
  rfl

theorem Follows.start (c : Client) : Follows c [] (c, []) where
  state := rfl
  symbolIds := rfl
  quotes _ _ := rfl
  others _ _ := rfl
  offers := (List.append_nil _).symm

/-- Taking the quotes moves those that wait to those that were handed out. -/
theorem Follows.take {c : Client} {steps : List QuoteStep} {w : Watched} (h : Follows c steps w) :
    Follows c (steps ++ [.take]) (handOut w) where
  state := h.state
  symbolIds := h.symbolIds
  quotes s hs := by
    rw [quoteAfter_congr (rowsOf_concat_take s steps)]
    exact h.quotes s hs
  others := h.others
  offers := by
    have hnone : c.offered (steps ++ [.take]) = none := by
      rw [offered, List.getLast?_concat]
    rw [inits_concat, List.filterMap_append, List.filterMap_cons_none hnone, List.filterMap_nil,
      List.append_nil, ← h.offers]
    exact List.append_nil _

/-- Ids that are distinct tell the symbols apart. -/
theorem find_symbol {symbols : List Symbol} (hids : (symbols.map Symbol.id).Nodup) {s : Symbol}
    (hs : s ∈ symbols) : (symbols.find? fun r => r.id = s.id) = some s := by
  have hsome : (symbols.find? fun r => r.id = s.id).isSome :=
    List.find?_isSome.mpr ⟨s, hs, by simp⟩
  obtain ⟨r, hr⟩ := Option.isSome_iff_exists.mp hsome
  have hid : r.id = s.id := by simpa using List.find?_some hr
  rw [hr, List.inj_on_of_nodup_map hids (List.mem_of_find?_eq_some hr) hs hid]

/-- A row changes the quote of its symbol, and no other. -/
theorem Follows.row {c : Client} (hsound : c.Sound) (hids : (c.state.symbols.map Symbol.id).Nodup)
    (hnames : (c.state.symbols.map Symbol.name).Nodup) {steps : List QuoteStep} {w : Watched}
    (h : Follows c steps w) {command : UInt8} {row : QuoteRow} {d : Client}
    (hrow : applyQuote command row w.1 = (.ok (), d)) :
    Follows c (steps ++ [.row command row]) (d, w.2) := by
  obtain ⟨s, hs, hd⟩ := applyQuote_eq_ok hrow
  have hsound' : w.1.Sound := by
    unfold Sound
    rw [h.state, h.symbolIds]
    exact hsound
  obtain ⟨hmem, hid⟩ := quoteSymbol_eq_ok hsound' hs
  rw [h.state] at hmem
  have hafter : c.quoteAfter s (steps ++ [.row command row]) =
      some (w.1.updatedQuote s command row (rowTime command row)) :=
    quoteAfter_concat hid.symm (h.quotes s hmem)
  refine ⟨?_, ?_, ?_, ?_, ?_⟩
  · rw [hd]
    exact h.state
  · rw [hd]
    exact h.symbolIds
  · intro r hr
    rw [hd]
    show (w.1.quotes.insert s.name _).lookup r.name = _
    by_cases hname : r.name = s.name
    · obtain rfl : r = s := List.inj_on_of_nodup_map hnames hr hmem hname
      rw [AList.lookup_insert, hafter]
    · have hother : row.symbolId ≠ r.id := by
        intro heq
        apply hname
        rw [List.inj_on_of_nodup_map hids hr hmem (heq.symm.trans hid.symm)]
      have hrows : rowsOf r (steps ++ [.row command row]) = rowsOf r steps := by
        rw [rowsOf_concat_row, if_neg hother, List.append_nil]
      rw [AList.lookup_insert_ne hname, quoteAfter_congr hrows]
      exact h.quotes r hr
  · intro name hname
    have hne : name ≠ s.name := by
      intro heq
      rw [heq] at hname
      exact hname (List.mem_map_of_mem hmem)
    rw [hd]
    show (w.1.quotes.insert s.name _).lookup name = _
    rw [AList.lookup_insert_ne hne]
    exact h.others name hname
  · have hoffered : (steps ++ [QuoteStep.row command row]).inits.filterMap c.offered =
        steps.inits.filterMap c.offered ++
          offering (w.1.updatedQuote s command row (rowTime command row)) := by
      rw [inits_concat, List.filterMap_append]
      congr 1
      rw [List.filterMap_cons, List.filterMap_nil, offered, List.getLast?_concat]
      simp only [← hid, find_symbol hids hmem, Option.bind_some, hafter, Option.filter_some]
      unfold offering
      by_cases hsides : 0 < (w.1.updatedQuote s command row (rowTime command row)).bid ∧
          0 < (w.1.updatedQuote s command row (rowTime command row)).ask
      · simp [hsides]
      · simp [hsides]
    rw [hoffered, ← List.append_assoc, ← h.offers, hd]
    exact (List.append_assoc _ _ _).symm

/-- A run of steps follows its rows. -/
theorem follows_of_exec {c : Client} (hsound : c.Sound)
    (hids : (c.state.symbols.map Symbol.id).Nodup)
    (hnames : (c.state.symbols.map Symbol.name).Nodup) {steps : List QuoteStep} {w : Watched}
    (h : Run.exec quoteStep (c, []) steps = some w) : Follows c steps w := by
  refine Run.exec_history (Follows.start c) ?_ h
  intro steps step w u hfollows hstep
  cases step with
  | row command row =>
    obtain ⟨hrow, hgiven⟩ := perform_eq_some.mp hstep
    have hnext := hfollows.row hsound hids hnames hrow
    rwa [← hgiven] at hnext
  | take =>
    cases hstep
    exact hfollows.take

theorem announced_of_mem_stepsOf {events : List QuoteEvent} {command : UInt8} {row : QuoteRow}
    (h : .row command row ∈ stepsOf events) : Announced command row := by
  obtain ⟨event, -, hstep⟩ := List.mem_flatMap.mp h
  cases event with
  | take => exact nomatch List.mem_singleton.mp hstep
  | message now m =>
    simp only [stepsOfEvent] at hstep
    cases hrows : decodeQuotes m.payload m.command with
    | error e =>
      rw [hrows] at hstep
      cases hstep
    | ok rows =>
      rw [hrows] at hstep
      obtain ⟨other, hother, heq⟩ := List.mem_map.mp hstep
      cases heq
      exact announced (decodeQuotes_followsMask hrows row hother)

/-- Messages of commands 50 and 51 that are applied without an error, and takes between them,
go through the steps of their rows.  Behind each step the cached quote of a symbol has the time
of its last row and the last positive value of each side, and the quotes that were handed out
are, with those that wait, one for each row behind which both sides were positive.  A take
leaves none waiting. -/
theorem quotes_followed {c d : Client} {events : List QuoteEvent} {taken : List Quote}
    (hsound : c.Sound) (hids : (c.state.symbols.map Symbol.id).Nodup)
    (hnames : (c.state.symbols.map Symbol.name).Nodup)
    (hquotes : ∀ now m, .message now m ∈ events → m.command = 50 ∨ m.command = 51)
    (h : Run.exec quoteEvent (c, []) events = some (d, taken)) :
    (∀ command row, .row command row ∈ stepsOf events → Announced command row) ∧
      ∀ front back, stepsOf events = front ++ back →
        ∃ w, Run.exec quoteStep (c, []) front = some w ∧
          Run.exec quoteStep w back = some (d, taken) ∧ Follows c front w ∧
          (front.getLast? = some .take → w.1.changedQuotes = []) := by
  refine ⟨fun command row => announced_of_mem_stepsOf, ?_⟩
  intro front back hsplit
  have hsteps := exec_stepsOf hquotes h
  rw [hsplit, Run.exec_append, Option.bind_eq_some_iff] at hsteps
  obtain ⟨w, hfront, hback⟩ := hsteps
  refine ⟨w, hfront, hback, follows_of_exec hsound hids hnames hfront, ?_⟩
  intro hlast
  obtain ⟨before, hbefore⟩ := List.getLast?_eq_some_iff.mp hlast
  rw [hbefore, Run.exec_append, Option.bind_eq_some_iff] at hfront
  obtain ⟨u, -, htake⟩ := hfront
  obtain ⟨v, hv, hw⟩ := Run.exec_cons_eq_some.mp htake
  cases hv
  cases hw
  rfl

/-- A client that knows EURUSD with one digit, as symbol 7. -/
def sampleWatch : Client :=
  synchronized (.connect [] [])
    { sampleState with symbols := [{ Margin.sampleSymbol with id := 7, digits := 1 }] } "demo" 0

/-- A quote with both sides, a take, and a snapshot with a bid and an ask of zero. -/
def sampleQuotes : List QuoteEvent :=
  [.message 0
      { command := 50, sequence := 1, payload := [94, 223, 144, 43, 239, 246, 0], fragments := 1 },
    .take,
    .message 0 { command := 51, sequence := 2, payload := [158, 41, 217, 0], fragments := 1 }]

/-- The snapshot keeps the ask of the quote before it. -/
theorem quotes_followed_sample :
    ∃ w, Run.exec quoteEvent (sampleWatch, []) sampleQuotes = some w ∧
      w.2 = [⟨"EURUSD", 3987, 11 / 10, 12 / 10⟩] ∧
      w.1.changedQuotes = [⟨"EURUSD", 4000, 13 / 10, 12 / 10⟩] ∧
      Follows sampleWatch (stepsOf sampleQuotes) w := by
  have hrun : (Run.exec quoteEvent (sampleWatch, []) sampleQuotes).map
      (fun w => (w.2, w.1.changedQuotes)) =
        some ([⟨"EURUSD", 3987, 11 / 10, 12 / 10⟩], [⟨"EURUSD", 4000, 13 / 10, 12 / 10⟩]) := by
    decide +kernel
  obtain ⟨⟨d, taken⟩, hexec, hfinal⟩ := Option.map_eq_some_iff.mp hrun
  obtain ⟨htaken, hchanged⟩ := Prod.mk.inj hfinal
  have hquotes : ∀ now m, .message now m ∈ sampleQuotes → m.command = 50 ∨ m.command = 51 := by
    intro now m hm
    simp only [sampleQuotes, List.mem_cons, QuoteEvent.message.injEq, List.not_mem_nil,
      or_false, reduceCtorEq, false_or] at hm
    rcases hm with ⟨-, rfl⟩ | ⟨-, rfl⟩
    · exact Or.inl rfl
    · exact Or.inr rfl
  have hsound : sampleWatch.Sound := Index.indexes_collect _
  obtain ⟨w, -, hback, hfollows, -⟩ := (quotes_followed hsound (List.nodup_singleton _)
    (List.nodup_singleton _) hquotes hexec).2 _ [] (List.append_nil _).symm
  cases Option.some.inj hback
  exact ⟨_, hexec, htaken, hchanged, hfollows⟩

end Client

end Mt5Open.Native
