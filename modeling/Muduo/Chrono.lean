import Muduo.Lib.Calendar

/-! # Civil dates of the standard library

What `std::chrono::year_month_day` does, by the calendar: a date in three fields that need not be a date of the
calendar, and the way to `sys_days` and back. -/

namespace Muduo
open Lib

/-- `year{…}` holds 16 bits. -/
def chronoYear (year : Int) : Int := year.bmod 65536

/-- `std::chrono::year_month_day` -/
structure ChronoDate where
  year : Int
  month : Nat
  day : Nat
  deriving DecidableEq

namespace ChronoDate

/-- `year().ok() && month().ok()` -/
def MonthOk (ymd : ChronoDate) : Prop := (-32767 ≤ ymd.year ∧ ymd.year ≤ 32767) ∧ 1 ≤ ymd.month ∧ ymd.month ≤ 12

/-- `ok()` -/
def Ok (ymd : ChronoDate) : Prop := ymd.MonthOk ∧ 1 ≤ ymd.day ∧ ymd.day ≤ daysInMonth ymd.year ymd.month

instance (ymd : ChronoDate) : Decidable ymd.MonthOk :=
  inferInstanceAs (Decidable ((-32767 ≤ ymd.year ∧ ymd.year ≤ 32767) ∧ 1 ≤ ymd.month ∧ ymd.month ≤ 12))

instance (ymd : ChronoDate) : Decidable ymd.Ok :=
  inferInstanceAs (Decidable (ymd.MonthOk ∧ 1 ≤ ymd.day ∧ ymd.day ≤ daysInMonth ymd.year ymd.month))

/-- `sys_days{ymd}`: the days count on from the first of the month, also if they are more than the month has. The
result is not specified for a year or month that there is not. -/
def sysDays (ymd : ChronoDate) (h : ymd.MonthOk) : Int :=
  (CivilDate.first ymd.year ymd.month h.2).dayNumber + (ymd.day - 1)

/-- `year_month_day{days}` -/
def ofSysDays (days : Int) : ChronoDate :=
  let c := CivilDate.ofDays days
  ⟨chronoYear c.year, c.month, c.day⟩

end ChronoDate

/-- A date of the calendar, in the range of `std::chrono::year`. -/
def chronoDate (c : CivilDate) : ChronoDate := ⟨c.year, c.month, c.day⟩

section
variable {c : CivilDate} (hyear : -32767 ≤ c.year ∧ c.year ≤ 32767)
include hyear

theorem chronoYear_of_ok : chronoYear c.year = c.year := by
  refine Int.bmod_eq_of_le ?_ ?_
  · omega
  · omega

theorem chronoDate_ok : (chronoDate c).Ok := ⟨⟨hyear, c.month_mem⟩, c.day_mem⟩

/-- The days count from the first of the month. -/
theorem sysDays_chronoDate : (chronoDate c).sysDays (chronoDate_ok hyear).1 = c.dayNumber := by
  simp only [ChronoDate.sysDays, chronoDate, CivilDate.dayNumber, CivilDate.first]
  omega

theorem ofSysDays_dayNumber : ChronoDate.ofSysDays c.dayNumber = chronoDate c := by
  simp only [ChronoDate.ofSysDays, CivilDate.ofDays_dayNumber, chronoYear_of_ok hyear]
  rfl

end

end Muduo
