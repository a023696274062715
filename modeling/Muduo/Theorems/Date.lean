import Mathlib.Tactic.IntervalCases
import Muduo.Date

/-! # Dates and the calendar

From March on, the days before a month are given by one formula, whatever the year; so the formula for the Julian day
number counts January and February to the year before. It agrees with the calendar from the year −4799 on, hence for all
days with a positive number. -/

namespace Muduo.Date
open Lib
variable {c c' : CivilDate}

/-! ## The formula -/

theorem daysBeforeMonth_march (year : Int) {month : Nat} (h : 1 ≤ month ∧ month ≤ 12) :
    (CivilDate.daysBeforeMonth year month : Int) =
      if month ≤ 2 then (153 * (month + 9) + 2) / 5 - 306
      else (153 * (month - 3) + 2) / 5 + 59 + if isLeap year then 1 else 0 := by
  obtain ⟨hge, hle⟩ := h
  cases hleap : isLeap year with
  | true => interval_cases month <;> simp only [CivilDate.daysBeforeMonth, daysInMonth, hleap] <;> rfl
  | false => interval_cases month <;> simp only [CivilDate.daysBeforeMonth, daysInMonth, hleap] <;> rfl

/-- The formula with `y` and `m` in their ranges, where the divisions round down. -/
theorem getJulianDayNumber_of_nonneg {year month day a : Int} (ha : (14 - month).tdiv 12 = a)
    (hy : 0 ≤ year + 4800 - a) (hm : 0 ≤ month + 12 * a - 3) :
    getJulianDayNumber year month day =
      day + (153 * (month + 12 * a - 3) + 2) / 5 + (year + 4800 - a) * 365 + (year + 4800 - a) / 4 -
        (year + 4800 - a) / 100 + (year + 4800 - a) / 400 - 32045 := by
  have hdays : 0 ≤ 153 * (month + 12 * a - 3) + 2 := by omega
  simp only [getJulianDayNumber, ha, Int.tdiv_eq_ediv_of_nonneg hy, Int.tdiv_eq_ediv_of_nonneg hdays]

/-- The years of the formula are those of the calendar twelve cycles of 400 years later. -/
theorem daysBeforeYear_cycles (year : Int) :
    CivilDate.daysBeforeYear (year + 4800) = CivilDate.daysBeforeYear year + 1753164 := by
  unfold CivilDate.daysBeforeYear
  omega

theorem daysBeforeYear_eq (year : Int) :
    year * 365 + year / 4 - year / 100 + year / 400 = CivilDate.daysBeforeYear (year + 1) - 365 := by
  rw [CivilDate.daysBeforeYear, Int.add_sub_cancel]
  omega

theorem getJulianDayNumber_civil (h : -4799 ≤ c.year) : getJulianDayNumber c.year c.month c.day = c.julianDay := by
  have hmonth := c.month_mem
  have hbefore := daysBeforeMonth_march c.year c.month_mem
  by_cases hwinter : c.month ≤ 2
  · have ha : (14 - (c.month : Int)).tdiv 12 = 1 := by
      rw [Int.tdiv_eq_ediv_of_nonneg (by omega)]
      omega
    have hyears := daysBeforeYear_eq (c.year + 4800 - 1)
    rw [Int.sub_add_cancel, daysBeforeYear_cycles] at hyears
    rw [if_pos hwinter] at hbefore
    rw [getJulianDayNumber_of_nonneg ha (by omega) (by omega), CivilDate.julianDay, CivilDate.dayNumber, hbefore]
    omega
  · have ha : (14 - (c.month : Int)).tdiv 12 = 0 := by
      rw [Int.tdiv_eq_ediv_of_nonneg (by omega)]
      omega
    -- 29 February is behind us exactly in the leap years, which are a day longer.
    have hyears := daysBeforeYear_eq (c.year + 4800)
    have hdecember := daysBeforeMonth_march c.year (by decide : 1 ≤ 12 ∧ 12 ≤ 12)
    have hlast : daysInMonth c.year 12 = 31 := rfl
    rw [Int.add_right_comm, daysBeforeYear_cycles, CivilDate.daysBeforeYear_succ] at hyears
    rw [if_neg (by decide)] at hdecember
    rw [if_neg hwinter] at hbefore
    rw [getJulianDayNumber_of_nonneg ha (by omega) (by omega), CivilDate.julianDay, CivilDate.dayNumber, hbefore,
      Int.sub_zero]
    omega

/-- No day before the year −4713 has a positive number. -/
theorem year_of_julianDay_pos (h : 0 < c.julianDay) : -4713 ≤ c.year := by
  by_contra hlt
  have hbefore : c.dayNumber < (CivilDate.first (-4713) 1 (by decide)).dayNumber :=
    CivilDate.dayNumber_lt_of_year (Int.not_le.mp hlt)
  have hday : (CivilDate.first (-4713) 1 (by decide)).dayNumber = -2440915 := by decide
  unfold CivilDate.julianDay at h
  omega

/-! ## The dates of the calendar -/

/-- `Date(year, month, day)` of a date of the calendar. -/
def ofCivil (c : CivilDate) : Date := ofYearMonthDay c.year c.month c.day

theorem day_ofCivil (h : 0 < c.julianDay) : (ofCivil c).day = c.dayNumber := by
  have hyear := year_of_julianDay_pos h
  have hnumber : getJulianDayNumber c.year c.month c.day = c.julianDay := getJulianDayNumber_civil (by omega)
  rw [ofCivil, ofYearMonthDay, hnumber]
  exact Int.add_sub_cancel _ _

theorem julianDayNumber_ofCivil (h : 0 < c.julianDay) : (ofCivil c).julianDayNumber = c.julianDay := by
  rw [julianDayNumber, toJulianDay, day_ofCivil h]
  rfl

theorem valid_ofCivil (h : 0 < c.julianDay) : (ofCivil c).valid = true := by
  rw [valid, day_ofCivil h, decide_eq_true_iff, kInvalidDate, kJulianDayOf1970_01_01]
  unfold CivilDate.julianDay at h
  omega

theorem yearMonthDay_ofCivil (h : 0 < c.julianDay) (hyear : c.year ≤ 32767) :
    (ofCivil c).yearMonthDay = ⟨c.year, c.month, c.day⟩ := by
  have hge := year_of_julianDay_pos h
  rw [yearMonthDay, if_pos (valid_ofCivil h), day_ofCivil h, ofSysDays_dayNumber ⟨by omega, hyear⟩]
  rfl

theorem ofChrono_civil (h : 0 < c.julianDay) (hyear : c.year ≤ 32767) : ofChrono (chronoDate c) = ofCivil c := by
  have hge := year_of_julianDay_pos h
  have hin : -32767 ≤ c.year ∧ c.year ≤ 32767 := ⟨by omega, hyear⟩
  have hday := day_ofCivil h
  rw [← sysDays_chronoDate hin] at hday
  rw [ofChrono, dif_pos (chronoDate_ok hin), ← hday]

theorem ofJulianDay_julianDayNumber (h : 0 < c.julianDay) : ofJulianDay (ofCivil c).julianDayNumber = ofCivil c := by
  have hpos : 0 < (ofCivil c).julianDayNumber := by rwa [julianDayNumber_ofCivil h]
  rw [ofJulianDay, if_pos hpos, fromJulianDay, julianDayNumber, toJulianDay, Int.add_sub_cancel]

theorem julianDay_next (c : CivilDate) : c.next.julianDay = c.julianDay + 1 := by
  rw [CivilDate.julianDay, CivilDate.dayNumber_next, CivilDate.julianDay]
  omega

theorem weekDay_of_next {d d' : Date} (h : 0 ≤ d.julianDayNumber) (hnext : d'.julianDayNumber = d.julianDayNumber + 1) :
    d'.weekDay = (d.weekDay + 1) % kDaysPerWeek := by
  simp only [weekDay, hnext, kDaysPerWeek]
  rw [Int.tmod_eq_emod_of_nonneg (by omega), Int.tmod_eq_emod_of_nonneg (by omega)]
  omega

/-- For every date of the calendar with a positive Julian day number and a year in the range of `std::chrono::year`: the
four ways to a `Date` agree and give the date back, the next day is numbered and named as the next, and dates compare by
year, month and day. -/
theorem julian_civil_agree (h : 0 < c.julianDay) (hyear : c.year ≤ 32767) :
    (ofCivil c).valid = true ∧ (ofCivil c).yearMonthDay = ⟨c.year, c.month, c.day⟩ ∧
      ofChrono (chronoDate c) = ofCivil c ∧ ofJulianDay (ofCivil c).julianDayNumber = ofCivil c ∧
      (ofCivil c.next).julianDayNumber = (ofCivil c).julianDayNumber + 1 ∧
      (ofCivil c.next).weekDay = ((ofCivil c).weekDay + 1) % kDaysPerWeek ∧
      ∀ c' : CivilDate, 0 < c'.julianDay → c'.year ≤ 32767 →
        compare (ofCivil c) (ofCivil c') =
          (compare c.year c'.year).then ((compare c.month c'.month).then (compare c.day c'.day)) := by
  have hnext : 0 < c.next.julianDay := by
    rw [julianDay_next]
    omega
  have hnumber : (ofCivil c.next).julianDayNumber = (ofCivil c).julianDayNumber + 1 := by
    rw [julianDayNumber_ofCivil hnext, julianDayNumber_ofCivil h, julianDay_next]
  have hnonneg : 0 ≤ (ofCivil c).julianDayNumber := by
    rw [julianDayNumber_ofCivil h]
    exact Int.le_of_lt h
  refine ⟨valid_ofCivil h, yearMonthDay_ofCivil h hyear, ofChrono_civil h hyear, ofJulianDay_julianDayNumber h, hnumber,
    weekDay_of_next hnonneg hnumber, ?_⟩
  intro c' h' _
  rw [← CivilDate.compare_dayNumber, ← day_ofCivil h, ← day_ofCivil h']
  rfl

/-- 29 February 2000. -/
def leapDay : CivilDate := ⟨2000, 2, 29, by decide, by decide⟩

theorem leapDay_agrees :
    0 < leapDay.julianDay ∧ leapDay.next = .first 2000 3 (by decide) ∧
      (ofCivil leapDay).yearMonthDay = ⟨2000, 2, 29⟩ ∧
      (ofCivil (.first 2000 3 (by decide))).julianDayNumber = (ofCivil leapDay).julianDayNumber + 1 := by
  have hpos : 0 < leapDay.julianDay := by decide
  have hnext : leapDay.next = .first 2000 3 (by decide) := by decide
  obtain ⟨-, hymd, -, -, hnumber, -⟩ := julian_civil_agree hpos (by decide)
  exact ⟨hpos, hnext, hymd, hnext ▸ hnumber⟩

end Muduo.Date
