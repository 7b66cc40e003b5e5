import Mt5Open.Client.History
import Mt5Open.Lib.Calendar

/-!
# The dates of the history requests

`date` and `dateToken` against the calendar.  The conversion counts in eras of four
hundred years that begin in March; the token checks the month and the leap year by
itself.
-/

namespace Mt5Open.Native.Client

open Lib
open Calendar (Date IsLeap civil)

/-! ## The conversion -/

/-- The days of an era in terms of its centuries, the leap years of the century and the
years from there on. -/
theorem exists_century {doe yoe doy : Int} (hyoe : 0 ≤ yoe ∧ yoe < 400)
    (hlt : doy < 365 + if IsLeap (yoe + 1) then 1 else 0)
    (hdoe : doe = 365 * yoe + yoe / 4 - yoe / 100 + doy) :
    ∃ c a b : Int, (0 ≤ c ∧ c < 4) ∧ (0 ≤ a ∧ a < 25) ∧ (0 ≤ b ∧ b < 4) ∧
      yoe = 100 * c + 4 * a + b ∧ doe = 36524 * c + 1461 * a + 365 * b + doy ∧
      (doy < 365 ∨ doy = 365 ∧ b = 3 ∧ (a < 24 ∨ c = 3)) := by
  unfold IsLeap at hlt
  refine ⟨yoe / 100, yoe % 100 / 4, yoe % 4, ?_, ?_, ?_, ?_, ?_, ?_⟩
  all_goals split_ifs at hlt <;> omega

/-- The year within an era, from the days of the era that are over. -/
theorem yearOfEra_eq {doe yoe doy : Int} (hyoe : 0 ≤ yoe ∧ yoe < 400) (hdoy : 0 ≤ doy)
    (hlt : doy < 365 + if IsLeap (yoe + 1) then 1 else 0)
    (hdoe : doe = 365 * yoe + yoe / 4 - yoe / 100 + doy) :
    (doe - doe / 1460 + doe / 36524 - doe / 146096) / 365 = yoe := by
  obtain ⟨c, a, b, hc, ha, hb, rfl, rfl, hlast⟩ := exists_century hyoe hlt hdoe
  clear hlt hdoe
  generalize hdoe : 36524 * c + 1461 * a + 365 * b + doy = doe
  -- The last day of the era counts for a century of its own, which is taken off again.
  have hcentury : doe / 36524 - doe / 146096 = c := by
    obtain hdoy | ⟨rfl, rfl, hshort⟩ := hlast
    · have : doe / 36524 = c := by omega
      omega
    · by_cases hera : doe = 146096
      · subst hera
        omega
      · have : doe / 36524 = c := by omega
        omega
  have hleap : doe / 1460 = 25 * c + a ∨ doe / 1460 = 25 * c + a + 1 := by omega
  omega

/-- The month that a day of the year is in. -/
theorem marchMonth_eq (d : Date) : (5 * d.marchDay + 2) / 153 = d.marchMonth := by
  have hday := d.day_mem
  have hmonth := d.marchMonth_le
  have hyear := d.marchDay_lt_year
  have hmarch : d.marchDay = (153 * d.marchMonth + 2) / 5 + d.day - 1 := rfl
  by_cases hlast : d.marchMonth < 11
  · have hlt := d.marchDay_lt hlast
    omega
  · split_ifs at hyear <;> omega

/-- The conversion comes back from the number of a day to its date. -/
theorem date_dayCount {d : Date} {seconds : Int} (h : 0 ≤ seconds ∧ seconds < 4039372800)
    (hday : d.dayCount = seconds / 86400) : date seconds = .ok (d.year, d.month, d.day) := by
  have hnonneg := d.marchDay_nonneg
  have hlt := d.marchDay_lt_year
  obtain ⟨era, yoe, hyoe, hyear⟩ : ∃ era yoe : Int, (0 ≤ yoe ∧ yoe < 400) ∧
      d.marchYear = yoe + era * 400 :=
    ⟨d.marchYear / 400, d.marchYear % 400, by omega, by omega⟩
  have hleap : IsLeap (d.marchYear + 1) ↔ IsLeap (yoe + 1) := by
    unfold IsLeap
    omega
  simp only [hleap] at hlt
  -- The eras, the years of the era, the months and the days come off one after another.
  obtain ⟨doe, hdoe⟩ : ∃ doe, doe = 365 * yoe + yoe / 4 - yoe / 100 + d.marchDay := ⟨_, rfl⟩
  have hz : seconds / 86400 + 719468 = doe + era * 146097 := by
    rw [← hday, Date.dayCount, hyear, hdoe]
    omega
  have hera : (seconds / 86400 + 719468) / 146097 = era := by
    split_ifs at hlt <;> omega
  have hoe : seconds / 86400 + 719468 - era * 146097 = doe := by omega
  have hyears := yearOfEra_eq hyoe hnonneg hlt hdoe
  have hdoy : doe - (365 * yoe + yoe / 4 - yoe / 100) = d.marchDay := by omega
  rw [date, if_neg (not_not_intro h)]
  simp only [hera, hoe, hyears, hdoy, marchMonth_eq]
  have hmonth : d.marchMonth + (if d.marchMonth < 10 then 3 else -9) = d.month := by
    have hmem := d.month_mem
    unfold Date.marchMonth
    split_ifs <;> omega
  have hdate : d.marchDay - (153 * d.marchMonth + 2) / 5 + 1 = d.day := by
    unfold Date.marchDay
    omega
  rw [hmonth, hdate, ← hyear, Date.marchYear, sub_add_cancel]

/-! ## The tokens -/

theorem yearDays_mono {year bound : Int} (h : year ≤ bound) :
    365 * year + year / 4 - year / 100 + year / 400 ≤
      365 * bound + bound / 4 - bound / 100 + bound / 400 := by
  have hcentury : bound / 100 - year / 100 ≤ bound - year := by omega
  omega

/-- The range of the conversion is that of the tokens. -/
theorem year_mem {d : Date} (h : 0 ≤ d.dayCount ∧ d.dayCount < 46752) :
    1970 ≤ d.year ∧ d.year ≤ 2097 := by
  have hmonth := d.month_mem
  have hday := d.day_mem
  have hlt := d.marchDay_lt_year
  unfold Date.dayCount at h
  constructor
  · by_contra hyear
    have hle : d.marchYear ≤ if d.month ≤ 2 then 1968 else 1969 := by
      unfold Date.marchYear
      split_ifs <;> omega
    have hdays := yearDays_mono hle
    by_cases hmarch : d.month ≤ 2
    · rw [if_pos hmarch] at hdays
      split_ifs at hlt <;> omega
    · have hlast := d.marchDay_lt
      rw [if_neg hmarch] at hdays
      rw [Date.marchMonth, if_neg hmarch] at hlast
      omega
  · by_contra hyear
    have hle : (if d.month ≤ 2 then 2097 else 2098) ≤ d.marchYear := by
      unfold Date.marchYear
      split_ifs <;> omega
    have hdays := yearDays_mono hle
    by_cases hmarch : d.month ≤ 2
    · rw [if_pos hmarch] at hdays
      rw [Date.marchDay, Date.marchMonth, if_pos hmarch] at h
      omega
    · have hnonneg := d.marchDay_nonneg
      rw [if_neg hmarch] at hdays
      omega

/-- The token of a date, which has the month and the day in bits of their own. -/
def packed (d : Date) : Int := (d.year - 1970) * 512 + d.month * 32 + d.day

theorem isValidCalendarDate_date (d : Date) :
    isValidCalendarDate d.year d.month d.day = true := by
  obtain ⟨year, month, day, ⟨hlow, hhigh⟩, hday⟩ := d
  unfold Calendar.daysOfMonth IsLeap at hday
  unfold isValidCalendarDate
  interval_cases month <;> simp at hday ⊢ <;> omega

theorem dateToken_date {d : Date} (h : 1970 ≤ d.year ∧ d.year ≤ 2097) :
    ∃ token : Nat, dateToken d.year d.month d.day = .ok token ∧ (token : Int) = packed d := by
  have hmonth := d.month_mem
  have hday := d.day_mem
  have hle := Calendar.daysOfMonth_le d.year d.month
  rw [dateToken, if_neg (by omega), isValidCalendarDate_date]
  refine ⟨_, rfl, ?_⟩
  have hmonths : d.month.toNat <<< 5 ||| d.day.toNat = d.month.toNat * 32 + d.day.toNat := by
    rw [← Nat.shiftLeft_add_eq_or_of_lt (show d.day.toNat < 2 ^ 5 by omega), Nat.shiftLeft_eq]
  have hyears : (d.year - 1970).toNat <<< 9 ||| (d.month.toNat * 32 + d.day.toNat) =
      (d.year - 1970).toNat * 512 + (d.month.toNat * 32 + d.day.toNat) := by
    rw [← Nat.shiftLeft_add_eq_or_of_lt
      (show d.month.toNat * 32 + d.day.toNat < 2 ^ 9 by omega), Nat.shiftLeft_eq]
  rw [Nat.or_assoc, hmonths, hyears, Nat.mod_eq_of_lt (by omega), packed]
  omega

/-- The token of the next day is larger. -/
theorem packed_next (d : Date) : packed d < packed d.next := by
  have hmonth := d.month_mem
  have hday := d.day_mem
  have hle := Calendar.daysOfMonth_le d.year d.month
  obtain ⟨-, hyear, hnext, hd⟩ | ⟨-, -, hyear, hnext, hd⟩ | ⟨-, -, hyear, hnext, hd⟩ :=
    d.next_cases
  all_goals
    rw [packed, packed, hyear, hnext, hd]
    omega

/-- The date and the token of an instant: the calendar's date of its day, and the only one
with that number. -/
structure Dated (seconds : Int) (d : Date) (token : Nat) : Prop where
  date_eq : date seconds = .ok (d.year, d.month, d.day)
  civil_eq : d = civil (seconds / 86400).toNat
  dayCount_iff : ∀ c : Date, c.dayCount = seconds / 86400 ↔ c = d
  token_eq : dateToken d.year d.month d.day = .ok token

theorem exists_dated {seconds : Int} (h : 0 ≤ seconds ∧ seconds < 4039372800) :
    ∃ d token, Dated seconds d token ∧
      (token : Int) = packed (civil (seconds / 86400).toNat) := by
  have hcount := Calendar.dayCount_civil (seconds / 86400).toNat
  have hday : (civil (seconds / 86400).toNat).dayCount = seconds / 86400 := by omega
  obtain ⟨token, htoken, hpacked⟩ :=
    dateToken_date (year_mem (d := civil (seconds / 86400).toNat) (by omega))
  refine ⟨civil (seconds / 86400).toNat, token, ⟨date_dayCount h hday, rfl, ?_, htoken⟩, hpacked⟩
  intro c
  constructor
  · intro hc
    -- Both dates are what the conversion says.
    have hsame := (date_dayCount h hc).symm.trans (date_dayCount h hday)
    simp only [Except.ok.injEq, Prod.mk.injEq] at hsame
    exact Date.ext hsame.1 hsame.2.1 hsame.2.2
  · intro hc
    rw [hc, hday]

/-- The date of an instant is that of the calendar, its token exists, and the tokens of two
instants compare as their days do. -/
theorem history_dates {s t : Int} (hs : 0 ≤ s ∧ s < 4039372800)
    (ht : 0 ≤ t ∧ t < 4039372800) :
    ∃ d e : Date, ∃ token other : Nat, Dated s d token ∧ Dated t e other ∧
      (token < other ↔ s / 86400 < t / 86400) ∧ (token = other ↔ s / 86400 = t / 86400) := by
  obtain ⟨d, token, hd, htoken⟩ := exists_dated hs
  obtain ⟨e, other, he, hother⟩ := exists_dated ht
  have hlt := Calendar.civil_lt_iff packed_next (s / 86400).toNat (t / 86400).toNat
  have hgt := Calendar.civil_lt_iff packed_next (t / 86400).toNat (s / 86400).toNat
  rw [← htoken, ← hother] at hlt hgt
  refine ⟨d, e, token, other, hd, he, ?_, ?_⟩
  · omega
  · omega

/-- The last day of a February, and the day after it. -/
theorem history_dates_february :
    ∃ d e : Date, ∃ token other : Nat, Dated 951782400 d token ∧ Dated 951868800 e other ∧
      (token < other ↔ (951782400 : Int) / 86400 < 951868800 / 86400) ∧
      (token = other ↔ (951782400 : Int) / 86400 = 951868800 / 86400) :=
  history_dates (by decide) (by decide)

end Mt5Open.Native.Client
