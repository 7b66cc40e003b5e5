import Mathlib.Algebra.Order.Field.Basic
import Mathlib.Algebra.Order.Field.Rat
import Mt5Open.Client.Account
import Mt5Open.Lib.Search
import Mt5Open.Native.Margin

/-!
# Currency conversion

`conversion_path` is a breadth-first search over the symbols, from a currency to another
one, with at most three symbols.  `Leads` says what a step over a symbol is, and
`conversion_shortest` that the path is a shortest chain of such steps.

`conversion_rate` multiplies the quotes of a path whose symbols are all quoted.
-/

namespace Mt5Open.Native.Client

open Lib
open Search (Chain)

/-- The rate of one symbol of a path. -/
def stepRate (q : Quote) (forward loss : Bool) : ℚ :=
  if forward then if loss then q.ask else q.bid else 1 / if loss then q.bid else q.ask

/-- `Client::conversion_rate`. -/
def conversionRate (c : Client) (source target : String) (loss : Bool) : Option ℚ := do
  let path ← c.conversionPath source target true
  path.foldlM (fun rate step => do
    let q ← c.quotes.lookup step.1.name
    return rate * stepRate q step.2 loss) 1

/-! ## Chains of symbols -/

/-- A cached quote of the symbol has both sides. -/
def Quoted (c : Client) (s : Symbol) : Prop :=
  ∃ q, c.quotes.lookup s.name = some q ∧ 0 < q.bid ∧ 0 < q.ask

/-- The symbol leads from one of its two currencies to the other. -/
structure Leads (c : Client) (quoted : Bool) (here : String) (s : Symbol) (next : String) :
    Prop where
  listed : s ∈ c.state.symbols
  quote : quoted = true → c.Quoted s
  nonempty : next ≠ ""
  sides : (s.baseCurrency = here ∧ s.profitCurrency = next) ∨
    (s.profitCurrency = here ∧ s.baseCurrency = next)

/-- The step of a path says whether it goes from the base to the profit currency. -/
structure Directed (c : Client) (quoted : Bool) (here : String) (step : Symbol × Bool)
    (next : String) : Prop extends Leads c quoted here step.1 next where
  forward : step.2 = true ↔ step.1.baseCurrency = here ∧ step.1.profitCurrency = next

/-! ## The search -/

theorem isQuoted_iff {c : Client} {s : Symbol} : c.isQuoted s = true ↔ c.Quoted s := by
  unfold isQuoted Quoted
  split
  · rename_i q hq
    simp [hq]
  · rename_i hnone
    simp [hnone]

/-- The move over a symbol from a currency. -/
def moveOver (c : Client) (quoted : Bool) (here : String) (s : Symbol) :
    Option (String × Symbol × Bool) :=
  if quoted ∧ !c.isQuoted s then none
  else
    match crossing s here with
    | none => none
    | some (next, forward) => if next = "" then none else some (next, s, forward)

/-- The moves from a currency, in the order of the symbols. -/
def moves (c : Client) (quoted : Bool) (here : String) : List (String × Symbol × Bool) :=
  c.state.symbols.filterMap (c.moveOver quoted here)

theorem conversionStep_eq (c : Client) (quoted : Bool) (way : Way)
    (found : List Way × List String) (s : Symbol) :
    c.conversionStep quoted way found s =
      match c.moveOver quoted way.1 s with
      | some move => Search.extend way found move
      | none => found := by
  unfold conversionStep moveOver
  by_cases hquoted : quoted ∧ !c.isQuoted s
  · rw [if_pos hquoted, if_pos hquoted]
  · rw [if_neg hquoted, if_neg hquoted]
    rcases crossing s way.1 with _ | ⟨next, forward⟩
    · rfl
    · by_cases hempty : next = ""
      · simp [hempty]
      · simp [hempty, Search.extend]

theorem conversionStepAll_eq (c : Client) (quoted : Bool) (way : Way) (visited : List String) :
    c.conversionStepAll quoted way visited =
      Search.expand (c.moves quoted) way visited := by
  rw [Search.expand, moves, List.foldl_filterMap, conversionStepAll]
  congr 1
  funext found s
  rw [conversionStep_eq]
  cases c.moveOver quoted way.1 s <;> rfl

theorem conversionLoop_body (c : Client) (quoted : Bool) (target : String)
    (s : List Way × List String) :
    (c.conversionLoop target quoted).body s = Search.round (c.moves quoted) 3 target s := by
  rcases s with ⟨queue, visited⟩
  cases queue with
  | nil => rfl
  | cons way queue =>
    simp only [conversionLoop, Search.round, conversionStepAll_eq]

/-- A move is a step that says its direction. -/
theorem mem_moves {c : Client} {quoted : Bool} {here next : String} {step : Symbol × Bool} :
    (next, step) ∈ c.moves quoted here → c.Directed quoted here step next := by
  intro h
  obtain ⟨s, hs, hmove⟩ := List.mem_filterMap.mp h
  unfold moveOver at hmove
  split at hmove
  · cases hmove
  · rename_i hquoted
    split at hmove
    · cases hmove
    · rename_i n forward hcrossing
      split at hmove
      · cases hmove
      · rename_i hempty
        cases hmove
        have hquote : quoted = true → c.Quoted s := fun hq =>
          isQuoted_iff.mp (by simpa [hq] using hquoted)
        unfold crossing at hcrossing
        split at hcrossing
        · rename_i hbase
          cases hcrossing
          exact ⟨⟨hs, hquote, hempty, .inl ⟨hbase, rfl⟩⟩, iff_of_true rfl ⟨hbase, rfl⟩⟩
        · rename_i hbase
          split at hcrossing
          · rename_i hprofit
            cases hcrossing
            exact ⟨⟨hs, hquote, hempty, .inr ⟨hprofit, rfl⟩⟩,
              iff_of_false Bool.false_ne_true fun h => hbase h.1⟩
          · cases hcrossing

/-- A step over a symbol is a move, in one direction or in the other. -/
theorem moves_of_leads {c : Client} {quoted : Bool} {here next : String} {s : Symbol}
    (h : c.Leads quoted here s next) : ∃ forward, (next, s, forward) ∈ c.moves quoted here := by
  have hquoted : ¬(quoted = true ∧ (!c.isQuoted s) = true) := by
    rintro ⟨hq, hnot⟩
    rw [isQuoted_iff.mpr (h.quote hq)] at hnot
    cases hnot
  have hmove : ∀ forward, crossing s here = some (next, forward) →
      (next, s, forward) ∈ c.moves quoted here := by
    intro forward hcrossing
    refine List.mem_filterMap.mpr ⟨s, h.listed, ?_⟩
    rw [moveOver, if_neg hquoted, hcrossing]
    exact if_neg h.nonempty
  unfold crossing at hmove
  rcases h.sides with ⟨hbase, hprofit⟩ | ⟨hprofit, hbase⟩
  · exact ⟨true, hmove true (by rw [if_pos hbase, hprofit])⟩
  · by_cases hsame : s.baseCurrency = here
    · -- both currencies are the current one
      exact ⟨true, hmove true (by rw [if_pos hsame, hprofit, ← hsame, hbase])⟩
    · exact ⟨false, hmove false (by rw [if_neg hsame, if_pos hprofit, hbase])⟩

/-- A chain of moves is a chain of steps that say their directions. -/
theorem directed_of_moves {c : Client} {quoted : Bool} {source target : String}
    {path : List (Symbol × Bool)} (h : Chain (Search.Step (c.moves quoted)) source path target) :
    Chain (c.Directed quoted) source path target := by
  induction h with
  | nil u => exact .nil u
  | cons hstep _ ih => exact .cons (mem_moves hstep) ih

/-- A chain of symbols is as long as a chain of moves. -/
theorem moves_of_chain {c : Client} {quoted : Bool} {source target : String}
    {symbols : List Symbol} (h : Chain (c.Leads quoted) source symbols target) :
    ∃ path, Chain (Search.Step (c.moves quoted)) source path target ∧
      path.length = symbols.length :=
  h.relabel fun _ s _ hstep =>
    let ⟨forward, hmove⟩ := moves_of_leads hstep
    ⟨(s, forward), hmove⟩

/-- A chain of directed steps is a chain of symbols. -/
theorem chain_of_directed {c : Client} {quoted : Bool} {source target : String}
    {path : List (Symbol × Bool)} (h : Chain (c.Directed quoted) source path target) :
    ∃ symbols, Chain (c.Leads quoted) source symbols target ∧ symbols.length = path.length :=
  h.relabel fun _ step _ hstep => ⟨step.1, hstep.toLeads⟩

/-- What the path is: a shortest chain of at most three symbols, or there is none. -/
theorem conversionPath_answers (c : Client) (source target : String) (quoted : Bool) :
    Search.Answers (c.moves quoted) 3 source target (c.conversionPath source target quoted) :=
  Search.run_answers _ (c.conversionLoop_body quoted target) source

/-! ## Rates -/

/-- The loop of `conversion_rate` over a path. -/
def rateOver (c : Client) (loss : Bool) (rate : ℚ) (path : List (Symbol × Bool)) : Option ℚ :=
  path.foldlM (fun rate step => do
    let q ← c.quotes.lookup step.1.name
    return rate * stepRate q step.2 loss) rate

theorem rateOver_cons {c : Client} {step : Symbol × Bool} {q : Quote}
    (hq : c.quotes.lookup step.1.name = some q) (loss : Bool) (rate : ℚ)
    (path : List (Symbol × Bool)) :
    c.rateOver loss rate (step :: path) =
      c.rateOver loss (rate * stepRate q step.2 loss) path := by
  rw [rateOver, List.foldlM_cons, hq]
  rfl

theorem stepRate_pos {q : Quote} (hbid : 0 < q.bid) (hask : 0 < q.ask) (forward loss : Bool) :
    0 < stepRate q forward loss := by
  have hside : ∀ side : Bool, 0 < if side then q.bid else q.ask := by
    intro side
    cases side with
    | true => exact hbid
    | false => exact hask
  unfold stepRate
  cases forward with
  | true =>
    cases loss with
    | true => exact hask
    | false => exact hbid
  | false => exact one_div_pos.mpr (hside loss)

/-- A loss is charged at the worse side. -/
theorem stepRate_le {q : Quote} (hbid : 0 < q.bid) (hle : q.bid ≤ q.ask) (forward : Bool) :
    stepRate q forward false ≤ stepRate q forward true := by
  cases forward with
  | true => exact hle
  | false =>
    simp only [stepRate, Bool.false_eq_true, if_false, if_true]
    exact one_div_le_one_div_of_le hbid hle

/-- The symbols of a quoted path all have a rate. -/
theorem rateOver_isSome {c : Client} {source target : String} {path : List (Symbol × Bool)}
    (h : Chain (c.Directed true) source path target) (loss : Bool) (rate : ℚ) :
    (c.rateOver loss rate path).isSome := by
  induction h generalizing rate with
  | nil u => rfl
  | cons hstep _ ih =>
    obtain ⟨q, hq, -, -⟩ := hstep.quote rfl
    rw [rateOver_cons hq]
    exact ih _

theorem rateOver_le {c : Client} (hquotes : ∀ name q, c.quotes.lookup name = some q → q.bid ≤ q.ask)
    {source target : String} {path : List (Symbol × Bool)}
    (h : Chain (c.Directed true) source path target) {low high : ℚ} (hlow : 0 < low)
    (hle : low ≤ high) {gain loss : ℚ} (hgain : c.rateOver false low path = some gain)
    (hloss : c.rateOver true high path = some loss) : gain ≤ loss := by
  induction h generalizing low high with
  | nil u =>
    cases hgain
    cases hloss
    exact hle
  | cons hstep _ ih =>
    obtain ⟨q, hq, hbid, hask⟩ := hstep.quote rfl
    rw [rateOver_cons hq] at hgain hloss
    have hfirst := stepRate_pos hbid hask
    exact ih (mul_pos hlow (hfirst _ false))
      (mul_le_mul hle (stepRate_le hbid (hquotes _ _ hq) _) (hfirst _ false).le
        (hlow.le.trans hle)) hgain hloss

theorem conversionRate_eq (c : Client) (source target : String) (loss : Bool) :
    c.conversionRate source target loss =
      (c.conversionPath source target true).bind (c.rateOver loss 1) := rfl

/-- The path that is found is a shortest chain of symbols, with the directions. -/
theorem conversionPath_eq_some {c : Client} {source target : String} {quoted : Bool}
    {path : List (Symbol × Bool)} (h : c.conversionPath source target quoted = some path) :
    Chain (c.Directed quoted) source path target ∧ path.length ≤ 3 ∧
      ∀ symbols, Chain (c.Leads quoted) source symbols target → path.length ≤ symbols.length := by
  have hanswer := c.conversionPath_answers source target quoted
  rw [h] at hanswer
  refine ⟨directed_of_moves hanswer.chain, hanswer.limit, fun symbols hsymbols => ?_⟩
  obtain ⟨labels, hlabels, hlength⟩ := moves_of_chain hsymbols
  rw [← hlength]
  exact hanswer.least labels hlabels

theorem conversionPath_isSome_iff (c : Client) (source target : String) (quoted : Bool) :
    (c.conversionPath source target quoted).isSome ↔
      ∃ symbols, symbols.length ≤ 3 ∧ Chain (c.Leads quoted) source symbols target := by
  constructor
  · intro h
    obtain ⟨path, hpath⟩ := Option.isSome_iff_exists.mp h
    obtain ⟨hchain, hlimit, -⟩ := conversionPath_eq_some hpath
    obtain ⟨symbols, hsymbols, hlength⟩ := chain_of_directed hchain
    exact ⟨symbols, by omega, hsymbols⟩
  · rintro ⟨symbols, hlimit, hsymbols⟩
    obtain ⟨labels, hlabels, hlength⟩ := moves_of_chain hsymbols
    have hanswer := c.conversionPath_answers source target quoted
    cases hpath : c.conversionPath source target quoted with
    | some path => rfl
    | none =>
      rw [hpath] at hanswer
      have hlong := hanswer labels hlabels
      omega

/-- Every symbol of a quoted path has a quote with both sides. -/
theorem quoted_of_mem {c : Client} {source target : String} {path : List (Symbol × Bool)}
    (h : Chain (c.Directed true) source path target) :
    ∀ step ∈ path, ∃ q, c.quotes.lookup step.1.name = some q ∧ q.bid ≠ 0 ∧ q.ask ≠ 0 := by
  induction h with
  | nil u => exact List.forall_mem_nil _
  | cons hstep _ ih =>
    obtain ⟨q, hq, hbid, hask⟩ := hstep.quote rfl
    exact List.forall_mem_cons.mpr ⟨⟨q, hq, hbid.ne', hask.ne'⟩, ih⟩

/-- A path is found exactly when a chain of at most three symbols leads to the target, and
it is a shortest one.  Its rate never divides by zero, and charging a loss is never
cheaper. -/
theorem conversion_shortest (c : Client) (source target : String) :
    (∀ quoted,
      ((c.conversionPath source target quoted).isSome ↔
        ∃ symbols, symbols.length ≤ 3 ∧ Chain (c.Leads quoted) source symbols target) ∧
      ∀ path, c.conversionPath source target quoted = some path →
        Chain (c.Directed quoted) source path target ∧ path.length ≤ 3 ∧
          ∀ symbols, Chain (c.Leads quoted) source symbols target →
            path.length ≤ symbols.length) ∧
    (∀ loss, (c.conversionRate source target loss).isSome ↔
      ∃ symbols, symbols.length ≤ 3 ∧ Chain (c.Leads true) source symbols target) ∧
    (∀ path, c.conversionPath source target true = some path → ∀ step ∈ path,
      ∃ q, c.quotes.lookup step.1.name = some q ∧ q.bid ≠ 0 ∧ q.ask ≠ 0) ∧
    ((∀ name q, c.quotes.lookup name = some q → q.bid ≤ q.ask) →
      ∀ gain loss, c.conversionRate source target false = some gain →
        c.conversionRate source target true = some loss → gain ≤ loss) := by
  refine ⟨fun quoted => ⟨c.conversionPath_isSome_iff source target quoted, fun path hpath =>
    conversionPath_eq_some hpath⟩, ?_, ?_, ?_⟩
  · intro loss
    rw [← conversionPath_isSome_iff, conversionRate_eq]
    cases hpath : c.conversionPath source target true with
    | none => exact Iff.rfl
    | some path =>
      exact iff_of_true (rateOver_isSome (conversionPath_eq_some hpath).1 loss 1) rfl
  · intro path hpath
    exact quoted_of_mem (conversionPath_eq_some hpath).1
  · intro hquotes gain loss hgain hloss
    rw [conversionRate_eq] at hgain hloss
    obtain ⟨path, hpath, hgain⟩ := Option.bind_eq_some_iff.mp hgain
    rw [hpath, Option.bind_some] at hloss
    exact rateOver_le hquotes (conversionPath_eq_some hpath).1 one_pos le_rfl hgain hloss

/-- A client with quotes of EURUSD and GBPUSD. -/
def sampleQuoted : Client :=
  let eurusd := Margin.sampleSymbol
  let gbpusd := { eurusd with id := 2, name := "GBPUSD", baseCurrency := "GBP" }
  { synchronized (.connect [] []) { sampleState with symbols := [eurusd, gbpusd] } "demo" 0 with
    quotes := [⟨"EURUSD", 0, 1, 2⟩, ⟨"GBPUSD", 0, 2, 4⟩].foldl
      (fun quotes q => quotes.insert q.symbol q) ∅ }

theorem bid_le_ask_of_entries {c : Client}
    (h : ∀ entry ∈ c.quotes.entries, entry.2.bid ≤ entry.2.ask) {name : String} {q : Quote}
    (hq : c.quotes.lookup name = some q) : q.bid ≤ q.ask :=
  h ⟨name, q⟩ (AList.mem_lookup_iff.mp hq)

/-- From EUR to GBP over USD: a loss is charged at 2 over 2, a gain at 1 over 4. -/
theorem conversion_shortest_sample :
    sampleQuoted.conversionRate "EUR" "GBP" false = some (1 / 4) ∧
      sampleQuoted.conversionRate "EUR" "GBP" true = some 1 ∧ (1 / 4 : ℚ) ≤ 1 := by
  have hgain : sampleQuoted.conversionRate "EUR" "GBP" false = some (1 / 4) := by decide +kernel
  have hloss : sampleQuoted.conversionRate "EUR" "GBP" true = some 1 := by decide +kernel
  have hentries : ∀ entry ∈ sampleQuoted.quotes.entries, entry.2.bid ≤ entry.2.ask := by
    decide +kernel
  have hordered : ∀ name q, sampleQuoted.quotes.lookup name = some q → q.bid ≤ q.ask :=
    fun _ _ => bid_le_ask_of_entries hentries
  have hspread := (conversion_shortest sampleQuoted "EUR" "GBP").2.2.2 hordered
  exact ⟨hgain, hloss, hspread _ _ hgain hloss⟩

end Mt5Open.Native.Client
