import Mathlib.Order.Monotone.Basic
import Mathlib.Logic.Function.Iterate
import Mathlib.Tactic.IntervalCases
import Mathlib.Tactic.NormNum

/-!
# The Gregorian calendar

Dates of the Gregorian calendar, which is taken to reach backwards without an end.
`Date.next` says how the calendar goes on, and `dayCount` numbers the days from the first
of January 1970.  The count is a formula, over years that begin in March, so that the day
that a leap year adds is the last one of its year.
-/

namespace Mt5Open.Lib.Calendar

def IsLeap (year : Int) : Prop := 4 ∣ year ∧ ¬100 ∣ year ∨ 400 ∣ year

instance (year : Int) : Decidable (IsLeap year) :=
  inferInstanceAs (Decidable (4 ∣ year ∧ ¬100 ∣ year ∨ 400 ∣ year))

def daysOfMonth (year month : Int) : Int :=
  if month = 2 then if IsLeap year then 29 else 28
  else if month = 4 ∨ month = 6 ∨ month = 9 ∨ month = 11 then 30
  else 31

theorem daysOfMonth_pos (year month : Int) : 1 ≤ daysOfMonth year month := by
  unfold daysOfMonth
  split_ifs <;> omega

theorem daysOfMonth_le (year month : Int) : daysOfMonth year month ≤ 31 := by
  unfold daysOfMonth
  split_ifs <;> omega

@[ext]
structure Date where
  year : Int
  month : Int
  day : Int
  month_mem : 1 ≤ month ∧ month ≤ 12
  day_mem : 1 ≤ day ∧ day ≤ daysOfMonth year month
  deriving DecidableEq

/-- The first of January 1970. -/
def epoch : Date := ⟨1970, 1, 1, by decide, by decide⟩

namespace Date

/-- The date of the next day. -/
def next (d : Date) : Date :=
  if h : d.day < daysOfMonth d.year d.month then
    ⟨d.year, d.month, d.day + 1, d.month_mem, by have := d.day_mem; omega, by omega⟩
  else if h : d.month < 12 then
    ⟨d.year, d.month + 1, 1, ⟨by have := d.month_mem; omega, by omega⟩, le_rfl,
      daysOfMonth_pos _ _⟩
  else ⟨d.year + 1, 1, 1, ⟨le_rfl, by decide⟩, le_rfl, daysOfMonth_pos _ _⟩

/-- The three ways that the calendar goes on. -/
theorem next_cases (d : Date) :
    (d.day < daysOfMonth d.year d.month ∧
      d.next.year = d.year ∧ d.next.month = d.month ∧ d.next.day = d.day + 1) ∨
    (d.day = daysOfMonth d.year d.month ∧ d.month < 12 ∧
      d.next.year = d.year ∧ d.next.month = d.month + 1 ∧ d.next.day = 1) ∨
    (d.day = daysOfMonth d.year d.month ∧ d.month = 12 ∧
      d.next.year = d.year + 1 ∧ d.next.month = 1 ∧ d.next.day = 1) := by
  have hmonth := d.month_mem
  have hday := d.day_mem
  unfold next
  split_ifs with h h'
  · exact .inl ⟨h, rfl, rfl, rfl⟩
  · exact .inr (.inl ⟨by omega, h', rfl, rfl, rfl⟩)
  · exact .inr (.inr ⟨by omega, by omega, rfl, rfl, rfl⟩)

/-! ## Years that begin in March -/

def marchYear (d : Date) : Int := d.year - if d.month ≤ 2 then 1 else 0

/-- The months from March on that are over. -/
def marchMonth (d : Date) : Int := d.month + if d.month ≤ 2 then 9 else -3

/-- The days from the first of March on that are over. -/
def marchDay (d : Date) : Int := (153 * d.marchMonth + 2) / 5 + d.day - 1

/-- Days from the first of January 1970 to the date. -/
def dayCount (d : Date) : Int :=
  365 * d.marchYear + d.marchYear / 4 - d.marchYear / 100 + d.marchYear / 400 + d.marchDay -
    719468

theorem marchMonth_nonneg (d : Date) : 0 ≤ d.marchMonth := by
  have hmonth := d.month_mem
  unfold marchMonth
  split_ifs <;> omega

theorem marchMonth_le (d : Date) : d.marchMonth ≤ 11 := by
  have hmonth := d.month_mem
  unfold marchMonth
  split_ifs <;> omega

/-- A month ends before the next one begins. -/
theorem marchDay_lt (d : Date) (h : d.marchMonth < 11) :
    d.marchDay < (153 * (d.marchMonth + 1) + 2) / 5 := by
  have hmonth := d.month_mem
  have hday := d.day_mem
  unfold marchDay
  unfold marchMonth at h ⊢
  generalize d.month = month at *
  unfold daysOfMonth at hday
  obtain ⟨hlow, hhigh⟩ := hmonth
  interval_cases month <;> simp at h hday ⊢ <;> omega

theorem marchDay_nonneg (d : Date) : 0 ≤ d.marchDay := by
  have hmarch := d.marchMonth_nonneg
  have hday := d.day_mem
  unfold marchDay
  omega

/-- The last day of February is the last one of the year. -/
theorem marchDay_lt_year (d : Date) :
    d.marchDay < 365 + if IsLeap (d.marchYear + 1) then 1 else 0 := by
  have hle := d.marchMonth_le
  by_cases hlast : d.marchMonth < 11
  · have hlt := d.marchDay_lt hlast
    split_ifs <;> omega
  · have hmonth : d.month = 2 := by
      have hmem := d.month_mem
      unfold marchMonth at hle hlast
      split_ifs at hle hlast <;> omega
    have hday := d.day_mem
    simp only [marchDay, marchMonth, marchYear, daysOfMonth, hmonth, if_true,
      show ((2 : Int) ≤ 2) from le_rfl, sub_add_cancel] at hday ⊢
    split_ifs at hday ⊢ <;> omega

theorem dayCount_epoch : epoch.dayCount = 0 := by decide

/-- The next date is the date of the next day. -/
theorem dayCount_next (d : Date) : d.next.dayCount = d.dayCount + 1 := by
  have hmonth := d.month_mem
  obtain ⟨-, hyear, hnext, hday⟩ | ⟨hlast, hlt, hyear, hnext, hday⟩ |
    ⟨hlast, htwelve, hyear, hnext, hday⟩ := d.next_cases
  · simp only [dayCount, marchDay, marchYear, marchMonth, hyear, hnext, hday]
    omega
  · simp only [dayCount, marchDay, marchYear, marchMonth, hyear, hnext, hday, hlast]
    generalize d.month = month at *
    generalize d.year = year at *
    obtain ⟨hlow, -⟩ := hmonth
    unfold daysOfMonth IsLeap
    interval_cases month <;> simp <;> omega
  · simp only [dayCount, marchDay, marchYear, marchMonth, hyear, hnext, hday, hlast, htwelve,
      daysOfMonth]
    omega

end Date

/-- The date so many days after the first of January 1970. -/
def civil (n : Nat) : Date := Date.next^[n] epoch

theorem civil_succ (n : Nat) : civil (n + 1) = (civil n).next :=
  Function.iterate_succ_apply' ..

theorem dayCount_civil (n : Nat) : (civil n).dayCount = n := by
  induction n with
  | zero => exact Date.dayCount_epoch
  | succ n ih =>
    rw [civil_succ, Date.dayCount_next, ih]
    norm_num

/-- What grows from each date to the next one grows with the days. -/
theorem civil_lt_iff {f : Date → Int} (h : ∀ d, f d < f d.next) (m n : Nat) :
    f (civil m) < f (civil n) ↔ m < n := by
  have hmono : StrictMono fun k => f (civil k) := by
    apply strictMono_nat_of_lt_succ
    intro k
    rw [civil_succ]
    exact h (civil k)
  exact hmono.lt_iff_lt

end Mt5Open.Lib.Calendar
