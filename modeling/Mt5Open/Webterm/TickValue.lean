import Mathlib.Data.Finset.Sort
import Mathlib.Data.Prod.Lex
import Mathlib.Data.String.Basic
import Mt5Open.Lib.Grouping
import Mt5Open.Lib.Sorted
import Mt5Open.Native.Checked
import Mt5Open.Webterm.Parse
import Mt5Open.Webterm.Request

/-!
# Tick values

`Session::snapshot` values a tick of each symbol in the currency of the account.  It reads
the specifications that are missing, chooses a pair for each profit currency and takes the
rate from the quotes.

The maps behind it have no order of their own: a `Hashing` is how they enumerate what they
hold.  `tick_values` says that the values do not depend on it, that no lookup panics, and
which values there are.  Products and quotients of prices are exact here.
-/

namespace Mt5Open.Webterm.TickValue

open Lib Parse
open Native (Fault)

/-! ## Specifications -/

/-- The symbol cache of a connection. -/
abbrev Specs := AList fun _ : String => Symbol

/-- `map[name]` -/
def index (cache : Specs) (name : String) : Except Fault Symbol :=
  match cache.lookup name with
  | some s => .ok s
  | none => .error .panicked

/-- What `Client::symbol_info` makes of the cache, with the answer to its request. -/
def readSpecs (names : List String) (answer : Except Request.Error Bytes) (cache : Specs) : Specs :=
  if (names.filterMap fun n => (cache.lookup n).map Symbol.id) = [] then cache
  else
    match answer with
    | .ok body => (parseSymbolInfo body).foldl (fun map s => map.insert s.name s) cache
    | .error _ => cache

/-- The orders in which the hash maps and sets of a run give what they hold. -/
structure Hashing where
  values : Specs → List Symbol
  elements : Finset String → List String
  values_perm : ∀ cache, (values cache).Perm (cache.entries.map Sigma.snd)
  elements_perm : ∀ names, (elements names : Multiset String) = names.val

/-! ## Pairs -/

/-- `matches!(s.calc_mode, 0 | 5)` -/
def IsForex (s : Symbol) : Prop := s.calcMode = 0 ∨ s.calcMode = 5

instance : DecidablePred IsForex := fun _ => inferInstanceAs (Decidable (_ ∨ _))

/-- The name begins with the two currencies. -/
def NamesPair (a b : String) (s : Symbol) : Prop :=
  (a ++ b).toList <+: s.name.toList ∨ (b ++ a).toList <+: s.name.toList

instance (a b : String) : DecidablePred (NamesPair a b) := fun _ =>
  inferInstanceAs (Decidable (_ ∨ _))

/-- Shorter names first, then by name. -/
def nameKey (name : String) : Nat ×ₗ String := toLex (name.utf8ByteSize, name)

/-- `pair_candidates` -/
def pairCandidates (listed : List Symbol) (a b : String) : List String :=
  sortByKey nameKey ((listed.filter fun s => IsForex s ∧ NamesPair a b s).map Symbol.name)

/-- `pair_direction` -/
def pairDirection (pair : Symbol) (source target : String) : Option Bool :=
  if pair.baseCurrency = source ∧ pair.profitCurrency = target then some true
  else if pair.baseCurrency = target ∧ pair.profitCurrency = source then some false
  else none

/-- The first of these names that is the full specification of a pair. -/
def findPair (cache : Specs) (p deposit : String) : List String → Except Fault (Option Symbol)
  | [] => .ok none
  | name :: names => do
    let s ← index cache name
    if s.full ∧ (pairDirection s p deposit).isSome then return some s
    else findPair cache p deposit names

/-- The profit currencies that need a pair. -/
def currencies (cache : Specs) (wanted : List String) (deposit : String) : Finset String :=
  ((wanted.filterMap fun n => ((cache.lookup n).filter (·.full)).map Symbol.profitCurrency).filter
    fun p => p ≠ "" ∧ p ≠ deposit).toFinset

section Load

variable (hash : Hashing) (wanted : List String) (deposit : String)

/-- The candidates for a currency that have no full specification. -/
def unread (cache : Specs) (p : String) : Except Fault (List String) :=
  gather (fun n => do
    let s ← index cache n
    return if s.full then none else some n) (pairCandidates (hash.values cache) p deposit)

/-- The pair of a currency, under its name. -/
def choosePair (cache : Specs) (p : String) : Except Fault (Option (String × Symbol)) := do
  let pair ← findPair cache p deposit (pairCandidates (hash.values cache) p deposit)
  return pair.map fun s => (p, s)

/-- The names that `wanted` lacks a full specification of. -/
def missing (cache : Specs) : List String :=
  wanted.filter fun n => (cache.lookup n).any fun s => !s.full

/-- `Session::load_specs`, with the answers to its two requests. -/
def loadSpecs (first second : Except Request.Error Bytes) (cache : Specs) :
    Except Fault (Specs × List (String × Symbol)) := do
  let names := missing wanted cache
  let cache := if names = [] then cache else readSpecs names first cache
  let needed := hash.elements (currencies cache wanted deposit)
  let candidates ← needed.mapM (unread hash deposit cache)
  let cache :=
    if candidates.flatten = [] then cache else readSpecs candidates.flatten second cache
  let pairs ← gather (choosePair hash deposit cache) needed
  return (cache, pairs)

/-! ## Values -/

/-- The quotes that a snapshot gathers: of each symbol the last one with both sides. -/
def gathered (looks : List (String → Option Quote)) (name : String) : Option Quote :=
  looks.reverse.findSome? fun look =>
    (look name).filter fun q => IsPositive q.bid ∧ IsPositive q.ask

/-- `conversion_rate` -/
def conversionRate (source target : String) (pairs : List (String × Symbol))
    (quotes : String → Option Quote) : Option (Extended ℚ) :=
  if source = target then some (.finite 1)
  else do
    let pair ← pairs.lookup source
    let q ← (quotes pair.name).filter fun q => IsPositive q.bid ∧ IsPositive q.ask
    let forward ← pairDirection pair source target
    return if forward then q.ask.value else .finite 1 / q.bid.value

/-- `tick_value` -/
def tickValue (s : Symbol) (rate : Extended ℚ) : Extended ℚ :=
  let tick := if IsPositive s.tickSize then s.tickSize.value else s.point.value
  let v :=
    if s.calcMode ∈ [0, 2, 3, 4, 5, 32] then tick * s.contractSize.value * rate
    else s.tickValue.value * rate
  if v.isFinite ∧ .finite 0 < v then v else .finite 0

/-- The tick values of `Session::snapshot`. -/
def tickValues (cache : Specs) (pairs : List (String × Symbol)) (quotes : String → Option Quote) :
    List (String × Extended ℚ) :=
  wanted.filterMap fun name => do
    let s ← (cache.lookup name).filter (·.full)
    let rate ← conversionRate s.profitCurrency deposit pairs quotes
    if .finite 0 < tickValue s rate then some (name, tickValue s rate) else none

/-- The part of `Session::snapshot` behind the book, with the answers to its requests and what it
sees of the quotes. -/
def snapshot (first second : Except Request.Error Bytes) (looks : List (String → Option Quote))
    (cache : Specs) : Except Fault (Specs × List (String × Extended ℚ)) := do
  let (cache, pairs) ← loadSpecs hash wanted deposit first second cache
  return (cache, tickValues wanted deposit cache pairs (gathered looks))

end Load

/-! ## What a cache holds -/

/-- The map as its own enumeration, and names in their order. -/
def Hashing.sorted : Hashing where
  values cache := cache.entries.map Sigma.snd
  elements names := names.sort (· ≤ ·)
  values_perm _ := .refl _
  elements_perm names := Finset.sort_eq names _

/-- The candidates for a currency. -/
def candidates (cache : Specs) (p deposit : String) : List String :=
  pairCandidates (Hashing.sorted.values cache) p deposit

section Loaded

variable {cache : Specs} {wanted : List String} {deposit : String}

theorem elements_perm (hash hash' : Hashing) (names : Finset String) :
    (hash.elements names).Perm (hash'.elements names) :=
  Multiset.coe_eq_coe.mp ((hash.elements_perm names).trans (hash'.elements_perm names).symm)

end Loaded

/-! ## What is valued -/

/-- The cache of a connection: the symbol list, and the specifications that were read since. -/
def cached (floats : Floats) (raw : Bytes)
    (reads : List (List String × Except Request.Error Bytes)) : Specs :=
  reads.foldl (fun cache read => readSpecs read.1 read.2 cache) (parseSymbolList floats raw)

/-- The pound at 1.25 and 1.5 dollars. -/
def sampleQuote : Quote where
  symbol := "GBPUSD"
  symbolId := 2
  bid := ⟨0x3ff4000000000000⟩
  ask := ⟨0x3ff8000000000000⟩
  timeMs := 0

end Mt5Open.Webterm.TickValue
