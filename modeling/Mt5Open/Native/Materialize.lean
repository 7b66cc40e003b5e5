import Mt5Open.Double
import Mt5Open.Lib.Latest
import Mt5Open.Native.TickHistory

/-!
# Sparse ticks

A tick leaves out the fields that have not changed.  `materializeTicks` carries them
forward: a field that is present counts when it is not zero or when its own flag is set,
and what does not count is taken from the ticks before.

`materializeFrom_eq_ok` separates the two halves of the loop, the checks of each row and
the values that are carried.  `materializeTicks_carried` says which row each value of a
tick comes from.
-/

namespace Mt5Open.Native.Ticks

open Lib History

/-- Prices carried forward when a sparse tick omits an unchanged field. -/
structure HistoricalTick where
  timeMs : Int
  bid : F64
  ask : F64
  last : F64
  volumeUnits : Nat
  flags : Nat
  deriving DecidableEq, Repr

/-- The variables of the loop in `materialize_ticks`. -/
structure Carried where
  bid : F64 := .zero
  ask : F64 := .zero
  last : F64 := .zero
  volume : Nat := 0
  deriving DecidableEq, Repr

/-- `try_into` to a `u64`. -/
def tryU64 (x : Int) (message : String) : Result Nat :=
  if 0 ≤ x ∧ x < 2 ^ 64 then .ok x.toNat else reject message

/-- `try_into` to an `i64`. -/
def tryI64 (x : Int) (message : String) : Result Int :=
  if -2 ^ 63 ≤ x ∧ x < 2 ^ 63 then .ok x else reject message

def rowFlags (row : Row) : Result Nat :=
  match row.auxiliary64 with
  | some flags => tryU64 flags "tick flags overflow"
  | none => reject "tick flags absent"

def rowTime (row : Row) : Result Int :=
  match row.timeMs with
  | some timeMs => tryI64 timeMs "tick timestamp overflow"
  | none => reject "tick timestamp absent"

/-- One round of the loop over the prices of a row, whose flag is `2 << i`. -/
def carryPrice (flags i : Nat) (value : Option F64) (price : F64) : Result F64 :=
  match value with
  | some value =>
    if !value.isFinite then reject "non-finite historical price"
    else if value.isNonzero ∨ flags &&& 2 <<< i ≠ 0 then .ok value
    else .ok price
  | none => .ok price

def carryVolume (flags : Nat) (value : Option Int) (volume : Nat) : Result Nat :=
  match value with
  | some value =>
    if value ≠ 0 ∨ flags &&& 16 ≠ 0 then tryU64 value "tick volume overflow" else .ok volume
  | none => .ok volume

/-- One round of the loop in `materialize_ticks`. -/
def materializeRow (carried : Carried) (row : Row) : Result (Carried × HistoricalTick) := do
  let flags ← rowFlags row
  let bid ← carryPrice flags 0 row.bid carried.bid
  let ask ← carryPrice flags 1 row.ask carried.ask
  let last ← carryPrice flags 2 row.last carried.last
  let volume ← carryVolume flags row.volume carried.volume
  let timeMs ← rowTime row
  return ({ bid, ask, last, volume }, { timeMs, bid, ask, last, volumeUnits := volume, flags })

/-- The loop of `materialize_ticks`. -/
def materializeFrom (carried : Carried) : List Row → Result (List HistoricalTick)
  | [] => .ok []
  | row :: rows => do
    let (carried, tick) ← materializeRow carried row
    let ticks ← materializeFrom carried rows
    return tick :: ticks

/-- `materialize_ticks`. -/
def materializeTicks (rows : List Row) : Result (List HistoricalTick) := materializeFrom {} rows

/-! ## The checks of a row -/

/-- The flags of a row. -/
def flagsOf (row : Row) : Nat := (row.auxiliary64.getD 0).toNat

/-- The price of a row, when it counts. -/
def priceOf (flag : Nat) (field : Row → Option F64) (row : Row) : Option F64 :=
  (field row).filter fun value => value.isNonzero ∨ flagsOf row &&& flag ≠ 0

/-- The volume of a row, when it counts. -/
def volumeOf (row : Row) : Option Int :=
  row.volume.filter fun value => value ≠ 0 ∨ flagsOf row &&& 16 ≠ 0

/-- The row has flags and a time, its prices are finite, and all its numbers fit. -/
structure Valid (row : Row) : Prop where
  flags : ∃ flags, row.auxiliary64 = some flags ∧ 0 ≤ flags ∧ flags < 2 ^ 64
  time : ∃ timeMs, row.timeMs = some timeMs ∧ -2 ^ 63 ≤ timeMs ∧ timeMs < 2 ^ 63
  prices : ∀ field ∈ [Row.bid, Row.ask, Row.last], ∀ value, field row = some value →
    value.isFinite = true
  volume : ∀ value, volumeOf row = some value → 0 ≤ value ∧ value < 2 ^ 64

/-- The variables behind a row. -/
def Carried.after (carried : Carried) (row : Row) : Carried where
  bid := (priceOf 2 Row.bid row).getD carried.bid
  ask := (priceOf 4 Row.ask row).getD carried.ask
  last := (priceOf 8 Row.last row).getD carried.last
  volume := ((volumeOf row).map Int.toNat).getD carried.volume

/-- The tick of a row, with the variables behind it. -/
def Carried.tick (carried : Carried) (row : Row) : HistoricalTick where
  timeMs := row.timeMs.getD 0
  bid := carried.bid
  ask := carried.ask
  last := carried.last
  volumeUnits := carried.volume
  flags := flagsOf row

theorem tryU64_eq_ok {x : Int} {message : String} {n : Nat} :
    tryU64 x message = .ok n ↔ (0 ≤ x ∧ x < 2 ^ 64) ∧ n = x.toNat := by
  unfold tryU64
  split
  · rename_i h
    rw [Except.ok.injEq, and_iff_right h]
    exact eq_comm
  · rename_i h
    exact ⟨nofun, fun hx => absurd hx.1 h⟩

theorem tryI64_eq_ok {x : Int} {message : String} {n : Int} :
    tryI64 x message = .ok n ↔ (-2 ^ 63 ≤ x ∧ x < 2 ^ 63) ∧ n = x := by
  unfold tryI64
  split
  · rename_i h
    rw [Except.ok.injEq, and_iff_right h]
    exact eq_comm
  · rename_i h
    exact ⟨nofun, fun hx => absurd hx.1 h⟩

theorem rowFlags_eq_ok {row : Row} {flags : Nat} :
    rowFlags row = .ok flags ↔
      (∃ flags, row.auxiliary64 = some flags ∧ 0 ≤ flags ∧ flags < 2 ^ 64) ∧
        flags = flagsOf row := by
  unfold rowFlags flagsOf
  cases row.auxiliary64 with
  | none => exact ⟨nofun, fun h => nomatch h.1⟩
  | some x => simp [tryU64_eq_ok]

theorem rowTime_eq_ok {row : Row} {timeMs : Int} :
    rowTime row = .ok timeMs ↔
      (∃ timeMs, row.timeMs = some timeMs ∧ -2 ^ 63 ≤ timeMs ∧ timeMs < 2 ^ 63) ∧
        timeMs = row.timeMs.getD 0 := by
  unfold rowTime
  cases row.timeMs with
  | none => exact ⟨nofun, fun h => nomatch h.1⟩
  | some x => simp [tryI64_eq_ok]

theorem carryPrice_eq_ok {row : Row} {field : Row → Option F64} {i : Nat} {price result : F64} :
    carryPrice (flagsOf row) i (field row) price = .ok result ↔
      (∀ value, field row = some value → value.isFinite = true) ∧
        result = (priceOf (2 <<< i) field row).getD price := by
  unfold carryPrice priceOf
  cases field row with
  | none =>
    rw [Except.ok.injEq, and_iff_right nofun]
    exact eq_comm
  | some value =>
    by_cases hfinite : value.isFinite
    · have hchecks : ∀ other, some value = some other → other.isFinite = true := by
        rintro _ ⟨⟩
        exact hfinite
      simp only [Option.filter_some, hfinite, Bool.not_true, Bool.false_eq_true, if_false,
        and_iff_right hchecks, decide_eq_true_eq]
      by_cases hcounts : value.isNonzero ∨ flagsOf row &&& 2 <<< i ≠ 0
      · rw [if_pos hcounts, if_pos hcounts, Except.ok.injEq]
        exact eq_comm
      · rw [if_neg hcounts, if_neg hcounts, Except.ok.injEq]
        exact eq_comm
    · simp only [hfinite, Bool.not_false, if_true]
      exact ⟨nofun, fun h => absurd (h.1 value rfl) hfinite⟩

theorem carryVolume_eq_ok {row : Row} {volume result : Nat} :
    carryVolume (flagsOf row) row.volume volume = .ok result ↔
      (∀ value, volumeOf row = some value → 0 ≤ value ∧ value < 2 ^ 64) ∧
        result = ((volumeOf row).map Int.toNat).getD volume := by
  unfold carryVolume volumeOf
  cases row.volume with
  | none =>
    rw [Except.ok.injEq, and_iff_right nofun]
    exact eq_comm
  | some value =>
    simp only [Option.filter_some, decide_eq_true_eq]
    by_cases hcounts : value ≠ 0 ∨ flagsOf row &&& 16 ≠ 0
    · rw [if_pos hcounts, if_pos hcounts, tryU64_eq_ok]
      refine and_congr ⟨fun h => ?_, fun h => h value rfl⟩ Iff.rfl
      rintro _ ⟨⟩
      exact h
    · rw [if_neg hcounts, if_neg hcounts, Except.ok.injEq, and_iff_right nofun]
      exact eq_comm

/-- A row passes its checks exactly when it is valid, and then it carries its values on. -/
theorem materializeRow_eq_ok {carried : Carried} {row : Row} {r : Carried × HistoricalTick} :
    materializeRow carried row = .ok r ↔
      Valid row ∧ r = (carried.after row, (carried.after row).tick row) := by
  unfold materializeRow
  simp only [except_bind_eq_ok, rowFlags_eq_ok, rowTime_eq_ok]
  constructor
  · rintro ⟨_, ⟨hflags, rfl⟩, bid, hbid, ask, hask, last, hlast, volume, hvolume, _,
      ⟨htime, rfl⟩, h⟩
    obtain ⟨hbidFinite, rfl⟩ := carryPrice_eq_ok.mp hbid
    obtain ⟨haskFinite, rfl⟩ := carryPrice_eq_ok.mp hask
    obtain ⟨hlastFinite, rfl⟩ := carryPrice_eq_ok.mp hlast
    obtain ⟨hvolumeFits, rfl⟩ := carryVolume_eq_ok.mp hvolume
    cases h
    refine ⟨⟨hflags, htime, ?_, hvolumeFits⟩, rfl⟩
    simp only [List.forall_mem_cons, List.not_mem_nil, false_imp_iff, implies_true, and_true]
    exact ⟨hbidFinite, haskFinite, hlastFinite⟩
  · rintro ⟨hvalid, rfl⟩
    have hprice := hvalid.prices
    refine ⟨_, ⟨hvalid.flags, rfl⟩, _, carryPrice_eq_ok.mpr ⟨hprice _ (by simp), rfl⟩,
      _, carryPrice_eq_ok.mpr ⟨hprice _ (by simp), rfl⟩,
      _, carryPrice_eq_ok.mpr ⟨hprice _ (by simp), rfl⟩,
      _, carryVolume_eq_ok.mpr ⟨hvalid.volume, rfl⟩, _, ⟨hvalid.time, rfl⟩, rfl⟩

/-- The ticks of rows that are all valid. -/
def ticksFrom (carried : Carried) : List Row → List HistoricalTick
  | [] => []
  | row :: rows => (carried.after row).tick row :: ticksFrom (carried.after row) rows

theorem materializeFrom_eq_ok {carried : Carried} {rows : List Row}
    {ticks : List HistoricalTick} :
    materializeFrom carried rows = .ok ticks ↔
      (∀ row ∈ rows, Valid row) ∧ ticks = ticksFrom carried rows := by
  induction rows generalizing carried ticks with
  | nil =>
    rw [materializeFrom, Except.ok.injEq, and_iff_right nofun]
    exact eq_comm
  | cons row rows ih =>
    rw [materializeFrom, List.forall_mem_cons, ticksFrom]
    constructor
    · intro h
      obtain ⟨r, hrow, h⟩ := except_bind_eq_ok.mp h
      obtain ⟨hvalid, rfl⟩ := materializeRow_eq_ok.mp hrow
      obtain ⟨rest, hrest, h⟩ := except_bind_eq_ok.mp h
      obtain ⟨hall, rfl⟩ := ih.mp hrest
      cases h
      exact ⟨⟨hvalid, hall⟩, rfl⟩
    · rintro ⟨⟨hvalid, hall⟩, rfl⟩
      refine except_bind_eq_ok.mpr ⟨_, materializeRow_eq_ok.mpr ⟨hvalid, rfl⟩, ?_⟩
      exact except_bind_eq_ok.mpr ⟨_, ih.mpr ⟨hall, rfl⟩, rfl⟩

/-! ## Where the values come from -/

theorem length_ticksFrom (carried : Carried) (rows : List Row) :
    (ticksFrom carried rows).length = rows.length := by
  induction rows generalizing carried with
  | nil => rfl
  | cons row rows ih => rw [ticksFrom, List.length_cons, ih, List.length_cons]

theorem take_ticksFrom (carried : Carried) (rows : List Row) (n : Nat) :
    (ticksFrom carried rows).take n = ticksFrom carried (rows.take n) := by
  induction rows generalizing carried n with
  | nil => simp [ticksFrom]
  | cons row rows ih =>
    cases n with
    | zero => rfl
    | succ n => rw [ticksFrom, List.take_succ_cons, ih, List.take_succ_cons, ticksFrom]

theorem getElem?_ticksFrom {carried : Carried} {rows : List Row} {i : Nat} {row : Row}
    (h : rows[i]? = some row) :
    (ticksFrom carried rows)[i]? =
      some (((rows.take (i + 1)).foldl Carried.after carried).tick row) := by
  induction rows generalizing carried i with
  | nil => cases h
  | cons first rows ih =>
    cases i with
    | zero =>
      cases h
      rfl
    | succ i => exact ih h

/-- The variables hold the last values that count. -/
theorem foldl_after (carried : Carried) (rows : List Row) :
    rows.foldl Carried.after carried =
      { bid := (latest (priceOf 2 Row.bid) rows).getD carried.bid
        ask := (latest (priceOf 4 Row.ask) rows).getD carried.ask
        last := (latest (priceOf 8 Row.last) rows).getD carried.last
        volume := ((latest volumeOf rows).map Int.toNat).getD carried.volume } := by
  induction rows using List.reverseRecOn with
  | nil => rfl
  | append_singleton rows row ih =>
    rw [List.foldl_append, ih, List.foldl_cons, List.foldl_nil, Carried.after]
    simp only [latest_concat, Option.map_or, Option.getD_or]

/-- A volume that counts is one of a valid row. -/
theorem volume_of_latest {rows : List Row} (h : ∀ row ∈ rows, Valid row) :
    ((((latest volumeOf rows).map Int.toNat).getD 0 : Nat) : Int) =
      (latest volumeOf rows).getD 0 := by
  cases hlatest : latest volumeOf rows with
  | none => rfl
  | some value =>
    obtain ⟨row, hrow, hvalue⟩ := exists_of_latest hlatest
    exact Int.toNat_of_nonneg ((h row hrow).volume value hvalue).1

/-- The rows are rejected exactly when one of them is not valid.  Otherwise each has its
tick, with the last values that count up to it, and a prefix has the prefix of the
ticks. -/
theorem materializeTicks_carried (rows : List Row) :
    ((∃ e, materializeTicks rows = .error e) ↔ ∃ row ∈ rows, ¬Valid row) ∧
    ∀ ticks, materializeTicks rows = .ok ticks →
      ticks.length = rows.length ∧
      (∀ i row, rows[i]? = some row → ∃ tick, ticks[i]? = some tick ∧
        row.timeMs = some tick.timeMs ∧ row.auxiliary64 = some (tick.flags : Int) ∧
        tick.bid = (latest (priceOf 2 Row.bid) (rows.take (i + 1))).getD .zero ∧
        tick.ask = (latest (priceOf 4 Row.ask) (rows.take (i + 1))).getD .zero ∧
        tick.last = (latest (priceOf 8 Row.last) (rows.take (i + 1))).getD .zero ∧
        (tick.volumeUnits : Int) = (latest volumeOf (rows.take (i + 1))).getD 0) ∧
      ∀ n, materializeTicks (rows.take n) = .ok (ticks.take n) := by
  constructor
  · cases hticks : materializeTicks rows with
    | ok ticks =>
      have hvalid := (materializeFrom_eq_ok.mp hticks).1
      refine iff_of_false nofun ?_
      rintro ⟨row, hrow, hnot⟩
      exact hnot (hvalid row hrow)
    | error e =>
      refine iff_of_true ⟨e, rfl⟩ ?_
      by_contra hall
      push Not at hall
      cases hticks.symm.trans (materializeFrom_eq_ok.mpr ⟨hall, rfl⟩)
  · intro ticks hticks
    obtain ⟨hvalid, rfl⟩ := materializeFrom_eq_ok.mp hticks
    refine ⟨length_ticksFrom {} rows, ?_, fun n => ?_⟩
    · intro i row hrow
      obtain ⟨flags, hflags, hnonneg, -⟩ := (hvalid row (List.mem_of_getElem? hrow)).flags
      obtain ⟨timeMs, htime, -, -⟩ := (hvalid row (List.mem_of_getElem? hrow)).time
      refine ⟨_, getElem?_ticksFrom hrow, ?_⟩
      rw [foldl_after, Carried.tick]
      refine ⟨?_, ?_, rfl, rfl, rfl,
        volume_of_latest fun r hr => hvalid r (List.mem_of_mem_take hr)⟩
      · rw [htime]
        rfl
      · rw [flagsOf, hflags]
        exact congrArg some (Int.toNat_of_nonneg hnonneg).symm
    · exact materializeFrom_eq_ok.mpr
        ⟨fun row hrow => hvalid row (List.mem_of_mem_take hrow), take_ticksFrom _ _ _⟩

/-- Two ticks at one millisecond.  The second one leaves its bid at zero without a flag. -/
def sampleRows : List Row :=
  [{ timeMs := some 1000, bid := some ⟨0x3ff3333333333333⟩, ask := some ⟨0x3ff4cccccccccccd⟩
     auxiliary64 := some 6 },
    { timeMs := some 1000, bid := some .zero, ask := some ⟨0x3ff6666666666666⟩
      auxiliary64 := some 4 }]

/-- The second tick has the bid of the first one. -/
theorem materializeTicks_carried_sample :
    ∃ ticks tick, materializeTicks sampleRows = .ok ticks ∧ ticks.length = 2 ∧
      ticks[1]? = some tick ∧ tick.timeMs = 1000 ∧ tick.bid = ⟨0x3ff3333333333333⟩ ∧
      materializeTicks (sampleRows.take 1) = .ok (ticks.take 1) := by
  cases hticks : materializeTicks sampleRows with
  | error e =>
    have hok : (materializeTicks sampleRows).isOk = true := by decide +kernel
    rw [hticks] at hok
    cases hok
  | ok ticks =>
    obtain ⟨hlength, hcarried, hprefix⟩ := (materializeTicks_carried sampleRows).2 ticks hticks
    obtain ⟨tick, htick, htime, -, hbid, -⟩ := hcarried 1 _ rfl
    exact ⟨ticks, tick, rfl, hlength, htick, (Option.some.inj htime).symm,
      hbid.trans (by decide +kernel), hprefix 1⟩

end Mt5Open.Native.Ticks
