import Mt5Open.Lib.Run
import Mt5Open.Webterm.Parse

/-!
# The quotes of the web terminal

The reader task keeps a cache of quotes.  A streamed record changes the quote of its symbol: a
side that is missing keeps what it was, and a record that cannot be completed is dropped.  A
tick-statistics record only fills a gap.

`Filled` says that both sides of every cached quote are positive.  A NaN is not missing for the
reader, since it compares false with zero, and it is not positive either.  `filled_iff` shows
that a run keeps to the rules of the cache exactly when no record with a NaN is stored.
-/

namespace Mt5Open.Webterm.Quotes

open Lib Lib.Run Parse

/-! ## The reader task -/

/-- The cache, by symbol. -/
abbrev Cache := AList fun _ : String => Quote

/-- The record with the sides that it lacks taken from the cached quote. -/
def fill (prev item : Quote) : Quote :=
  { item with
    bid := if IsMissing item.bid then prev.bid else item.bid
    ask := if IsMissing item.ask then prev.ask else item.ask }

/-- The record as the reader would store it. -/
def completed (cache : Cache) (item : Quote) : Quote :=
  match cache.lookup item.symbol with
  | some prev => fill prev item
  | none => item

/-- A record of `CMD_QUOTES`. -/
def stream (cache : Cache) (item : Quote) : Cache :=
  let item := completed cache item
  if IsMissing item.bid ∨ IsMissing item.ask then cache else cache.insert item.symbol item

/-- A record of `CMD_TICK_STATS`. -/
def fillGap (cache : Cache) (item : Quote) : Cache :=
  if item.symbol ∈ cache then cache else cache.insert item.symbol item

/-- A frame that changes the cache: its body, with the symbols in the order in which their map
gives them, and the clock or the time shift of the server. -/
inductive QuoteFrame where
  | quotes (symbols : List Symbol) (clock : Nat → Int) (body : Bytes)
  | tickStats (symbols : List Symbol) (shiftSeconds : Int) (body : Bytes)

/-- A quote whose sides are positive. -/
def FilledQuote : Type := { q : Quote // IsPositive q.bid ∧ IsPositive q.ask }

/-- A record that the reader takes to the cache. -/
inductive Item where
  | streamed (quote : Quote)
  | statistics (quote : FilledQuote)

/-- The record with its time in UTC. -/
def shifted (shiftSeconds : Int) (q : Quote) : Quote :=
  { q with timeMs := (q.timeMs - (shiftSeconds * 1000).bmod (2 ^ 64)).bmod (2 ^ 64) }

/-- `parse_tick_stats` gives quotes with both sides only. -/
theorem filled_of_mem_tickStats {floats : Floats} {symbols : List Symbol} {body : Bytes}
    {q : Quote} (h : q ∈ parseTickStats floats symbols body) :
    IsPositive q.bid ∧ IsPositive q.ask := by
  obtain ⟨record, -, hrecord⟩ := List.mem_filterMap.mp h
  unfold tickStats at hrecord
  split at hrecord
  · cases hrecord
  · rw [Option.ite_none_right_eq_some] at hrecord
    obtain ⟨hsides, hq⟩ := hrecord
    rw [← Option.some.inj hq]
    exact hsides

/-- The records of a frame. -/
def itemsOf (floats : Floats) : QuoteFrame → List Item
  | .quotes symbols clock body => (parseQuotes floats symbols clock body).map .streamed
  | .tickStats symbols shiftSeconds body =>
    (parseTickStats floats symbols body).attach.map fun q =>
      have hq := filled_of_mem_tickStats q.2
      .statistics ⟨shifted shiftSeconds q.1, hq⟩

/-- One record is taken to the cache. -/
def step (cache : Cache) : Item → Option Cache
  | .streamed item => some (stream cache item)
  | .statistics item => some (fillGap cache item.1)

/-! ## The rules of the cache -/

/-- Both sides of every cached quote are positive. -/
def Filled (cache : Cache) : Prop :=
  ∀ name q, cache.lookup name = some q → IsPositive q.bid ∧ IsPositive q.ask

/-- Exactly one side of a record is positive. -/
def OneSided (item : Quote) : Prop :=
  (IsPositive item.bid ∧ ¬IsPositive item.ask) ∨ (¬IsPositive item.bid ∧ IsPositive item.ask)

/-- The record with its positive sides, and the other ones of the cached quote. -/
def carried (prev item : Quote) : Quote :=
  { item with
    bid := if IsPositive item.bid then item.bid else prev.bid
    ask := if IsPositive item.ask then item.ask else prev.ask }

/-- What one record may do to the cache. -/
def Kept (cache : Cache) : Item → Cache → Prop
  | .streamed item, next =>
    OneSided item →
      match cache.lookup item.symbol with
      | some prev => next = cache.insert item.symbol (carried prev item)
      | none => next = cache
  | .statistics item, next => ∀ q, cache.lookup item.1.symbol = some q → next = cache

/-- A streamed record with a NaN finds no quote of its symbol, and its other side is missing. -/
def Guard (cache : Cache) : Item → Prop
  | .streamed item =>
    item.bid.value = .nan ∨ item.ask.value = .nan →
      cache.lookup item.symbol = none ∧ (IsMissing item.bid ∨ IsMissing item.ask)
  | .statistics _ => True

/-! ## One record -/

/-- What is not missing is positive, or it is a NaN. -/
theorem not_isMissing_iff {x : F64} : ¬IsMissing x ↔ x.value = .nan ∨ IsPositive x :=
  Extended.not_le_finite_iff

theorem not_isMissing_of_isPositive {x : F64} (h : IsPositive x) : ¬IsMissing x :=
  not_isMissing_iff.mpr (Or.inr h)

theorem ne_nan_of_isPositive {x : F64} (h : IsPositive x) : x.value ≠ .nan := by
  intro hnan
  unfold IsPositive at h
  rw [hnan] at h
  exact Extended.not_lt_nan _ h

theorem isPositive_iff_of_not_isMissing {x : F64} (h : ¬IsMissing x) :
    IsPositive x ↔ x.value ≠ .nan := by
  constructor
  · exact ne_nan_of_isPositive
  · exact (not_isMissing_iff.mp h).resolve_left

/-- A side that has been filled is positive unless it was a NaN. -/
theorem isPositive_fill {old x : F64} (hold : IsPositive old) :
    IsPositive (if IsMissing x then old else x) ↔ x.value ≠ .nan := by
  by_cases hmissing : IsMissing x
  · rw [if_pos hmissing]
    refine iff_of_true hold ?_
    intro hnan
    exact not_isMissing_iff.mpr (Or.inl hnan) hmissing
  · rw [if_neg hmissing]
    exact isPositive_iff_of_not_isMissing hmissing

theorem not_isMissing_fill {old x : F64} (hold : IsPositive old) :
    ¬IsMissing (if IsMissing x then old else x) := by
  by_cases hmissing : IsMissing x
  · rw [if_pos hmissing]
    exact not_isMissing_of_isPositive hold
  · rw [if_neg hmissing]
    exact hmissing

theorem filled_insert {cache : Cache} (h : Filled cache) (name : String) (q : Quote) :
    Filled (cache.insert name q) ↔ IsPositive q.bid ∧ IsPositive q.ask := by
  constructor
  · intro hnext
    exact hnext name q (AList.lookup_insert _)
  · intro hsides other r hr
    by_cases hname : other = name
    · rw [hname, AList.lookup_insert] at hr
      rw [← Option.some.inj hr]
      exact hsides
    · rw [AList.lookup_insert_ne hname] at hr
      exact h other r hr

/-- With a quote of the symbol at hand, a record is stored. -/
theorem stream_of_some {cache : Cache} (h : Filled cache) {item prev : Quote}
    (hprev : cache.lookup item.symbol = some prev) :
    stream cache item = cache.insert item.symbol (fill prev item) := by
  obtain ⟨hbid, hask⟩ := h _ _ hprev
  unfold stream completed
  rw [hprev]
  refine if_neg ?_
  intro hmissing
  rcases hmissing with hmissing | hmissing
  · exact not_isMissing_fill hbid hmissing
  · exact not_isMissing_fill hask hmissing

/-- Without one, a record is stored when it misses no side. -/
theorem stream_of_none {cache : Cache} {item : Quote} (hnone : cache.lookup item.symbol = none) :
    stream cache item =
      if IsMissing item.bid ∨ IsMissing item.ask then cache
      else cache.insert item.symbol item := by
  unfold stream completed
  rw [hnone]

/-- A streamed record keeps the cache filled exactly when it meets the guard. -/
theorem filled_stream {cache : Cache} (h : Filled cache) (item : Quote) :
    Filled (stream cache item) ↔ Guard cache (.streamed item) := by
  show _ ↔ (item.bid.value = .nan ∨ item.ask.value = .nan → _)
  cases hlookup : cache.lookup item.symbol with
  | some prev =>
    obtain ⟨hbid, hask⟩ := h _ _ hlookup
    rw [stream_of_some h hlookup, filled_insert h]
    show IsPositive (if _ then _ else _) ∧ IsPositive (if _ then _ else _) ↔ _
    rw [isPositive_fill hbid, isPositive_fill hask]
    simp [not_or]
  | none =>
    rw [stream_of_none hlookup]
    by_cases hmissing : IsMissing item.bid ∨ IsMissing item.ask
    · rw [if_pos hmissing]
      exact iff_of_true h fun _ => ⟨rfl, hmissing⟩
    · rw [if_neg hmissing, filled_insert h]
      obtain ⟨hbid, hask⟩ := not_or.mp hmissing
      rw [isPositive_iff_of_not_isMissing hbid, isPositive_iff_of_not_isMissing hask]
      simp [hmissing, not_or]

theorem filled_fillGap {cache : Cache} (h : Filled cache) (item : FilledQuote) :
    Filled (fillGap cache item.1) := by
  unfold fillGap
  split
  · exact h
  · exact (filled_insert h _ _).mpr item.2

theorem filled_step {cache next : Cache} {item : Item} (h : Filled cache)
    (hstep : step cache item = some next) : Filled next ↔ Guard cache item := by
  cases item with
  | streamed item =>
    cases hstep
    exact filled_stream h item
  | statistics item =>
    cases hstep
    exact iff_of_true (filled_fillGap h item) trivial

/-- A side of a record that is stored with one positive side. -/
theorem fill_eq_carried {item prev : Quote} (hbid : item.bid.value ≠ .nan)
    (hask : item.ask.value ≠ .nan) : fill prev item = carried prev item := by
  have hside : ∀ {x old : F64}, x.value ≠ .nan →
      (if IsMissing x then old else x) = if IsPositive x then x else old := by
    intro x old hnan
    by_cases hmissing : IsMissing x
    · rw [if_pos hmissing, if_neg fun hpos => not_isMissing_of_isPositive hpos hmissing]
    · rw [if_neg hmissing, if_pos ((isPositive_iff_of_not_isMissing hmissing).mpr hnan)]
  unfold fill carried
  rw [hside hbid, hside hask]

/-- A record that meets the guard does to the cache what it may. -/
theorem kept_of_guard {cache next : Cache} {item : Item} (h : Filled cache)
    (hguard : Guard cache item) (hstep : step cache item = some next) : Kept cache item next := by
  cases item with
  | statistics item =>
    cases hstep
    intro q hq
    exact if_pos (AList.lookup_isSome.mp (by rw [hq]; rfl))
  | streamed item =>
    cases hstep
    intro hsided
    cases hlookup : cache.lookup item.symbol with
    | some prev =>
      have hnumbers : ¬(item.bid.value = .nan ∨ item.ask.value = .nan) := by
        intro hnan
        have hnone := (hguard hnan).1
        rw [hlookup] at hnone
        cases hnone
      obtain ⟨hbid, hask⟩ := not_or.mp hnumbers
      rw [stream_of_some h hlookup, fill_eq_carried hbid hask]
    | none =>
      have hmissing : IsMissing item.bid ∨ IsMissing item.ask := by
        by_contra hwhole
        obtain ⟨hbid, hask⟩ := not_or.mp hwhole
        have hnumbers : ¬(item.bid.value = .nan ∨ item.ask.value = .nan) :=
          fun hnan => hwhole (hguard hnan).2
        rw [not_or] at hnumbers
        rcases hsided with ⟨-, hnone⟩ | ⟨hnone, -⟩
        · exact hnone ((isPositive_iff_of_not_isMissing hask).mpr hnumbers.2)
        · exact hnone ((isPositive_iff_of_not_isMissing hbid).mpr hnumbers.1)
      rw [stream_of_none hlookup, if_pos hmissing]

/-! ## Runs -/

/-- Every record does to the cache what it may. -/
def AllKept (cache : Cache) (items : List Item) : Prop :=
  ∀ front item back s t, items = front ++ item :: back → exec step cache front = some s →
    step s item = some t → Kept s item t

theorem exec_isSome (cache : Cache) (items : List Item) :
    ∃ s, exec step cache items = some s := by
  induction items generalizing cache with
  | nil => exact ⟨cache, rfl⟩
  | cons item items ih =>
    obtain ⟨next, hnext⟩ : ∃ next, step cache item = some next := by
      cases item with
      | streamed item => exact ⟨_, rfl⟩
      | statistics item => exact ⟨_, rfl⟩
    obtain ⟨s, hs⟩ := ih next
    exact ⟨s, exec_cons_eq_some.mpr ⟨next, hnext, hs⟩⟩

/-- Whatever the frames hold: both sides of every cached quote are positive behind every record,
and every record keeps to the rules of the cache, exactly when each streamed record with a NaN
finds no quote of its symbol and lacks its other side. -/
theorem filled_iff (floats : Floats) (frames : List QuoteFrame) :
    (Throughout step Filled ∅ (frames.flatMap (itemsOf floats)) ∧
        AllKept ∅ (frames.flatMap (itemsOf floats))) ↔
      StepsMeet step Guard ∅ (frames.flatMap (itemsOf floats)) := by
  obtain ⟨last, hlast⟩ := exec_isSome ∅ (frames.flatMap (itemsOf floats))
  have hempty : Filled ∅ := fun _ _ hq => nomatch hq
  have hkept : ∀ s a t, (fun _ => True) s → step s a = some t → (fun _ => True) t :=
    fun _ _ _ _ _ => trivial
  have hfilled := stepsMeet_iff hkept
    (fun _ _ _ _ h hstep => filled_step h hstep) trivial hempty hlast
  constructor
  · intro h
    exact hfilled.mp h.1
  · intro hmeet
    have hthrough := hfilled.mpr hmeet
    refine ⟨hthrough, ?_⟩
    intro front item back s t hsplit hs hstep
    have hbefore : Filled s := hthrough front (item :: back) s hsplit hs
    have hafter : Filled t := by
      refine hthrough (front ++ [item]) back t (by rw [hsplit, List.append_assoc]; rfl) ?_
      rw [exec_append, hs, Option.bind_some]
      exact exec_cons_eq_some.mpr ⟨t, hstep, rfl⟩
    exact kept_of_guard hbefore ((filled_step hbefore hstep).mp hafter) hstep

/-- Doubles with a division by one. -/
def sampleFloats : Floats := ⟨fun _ => one, fun a _ => a⟩

/-- A record of symbol 1 with a NaN for the bid and 1.0 for the ask. -/
def sampleFrame : QuoteFrame :=
  .quotes [{ name := "EURUSD", id := 1, digits := 0, point := one, calcMode := 0 }] (fun _ => 0)
    (LittleEndian.encode 12 1 ++ LittleEndian.encode 8 0x7ff8000000000000 ++
      LittleEndian.encode 8 one.bits ++ List.replicate 22 0)

/-- The NaN is not missing, and the quote is stored with it. -/
theorem not_filled_run :
    ¬ ∀ (floats : Floats) (frames : List QuoteFrame) s,
      exec step ∅ (frames.flatMap (itemsOf floats)) = some s → Filled s := by
  intro h
  have hrun : (exec step ∅ ([sampleFrame].flatMap (itemsOf sampleFloats))).map
      (fun s => s.lookup "EURUSD") =
        some (some ⟨"EURUSD", 1, ⟨0x7ff8000000000000⟩, one, 0⟩) := by decide +kernel
  obtain ⟨s, hexec, hquote⟩ := Option.map_eq_some_iff.mp hrun
  have hbid := (h sampleFloats [sampleFrame] s hexec _ _ hquote).1
  exact ne_nan_of_isPositive hbid (by decide +kernel)

end Mt5Open.Webterm.Quotes
