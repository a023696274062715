import Muduo.Chrono

/-! # Dates

`Date` keeps a `std::chrono::sys_days`; it is made from year, month and day by a formula for the Julian day number, from
a `year_month_day` or from a Julian day number. -/

namespace Muduo
open Lib

structure Date where
  /-- `day_`, in days after 1 January 1970. -/
  day : Int
  deriving DecidableEq

namespace Date

structure YearMonthDay where
  year : Int
  month : Int
  day : Int
  deriving DecidableEq

def kDaysPerWeek : Int := 7

def kJulianDayOf1970_01_01 : Int := 2440588

def kInvalidDate : Int := -kJulianDayOf1970_01_01

def getJulianDayNumber (year month day : Int) : Int :=
  let a := (14 - month).tdiv 12
  let y := year + 4800 - a
  let m := month + 12 * a - 3
  day + (153 * m + 2).tdiv 5 + y * 365 + y.tdiv 4 - y.tdiv 100 + y.tdiv 400 - 32045

def fromJulianDay (julianDayNum : Int) : Int := julianDayNum - kJulianDayOf1970_01_01

def toJulianDay (day : Int) : Int := day + kJulianDayOf1970_01_01

/-- `Date()` -/
def invalid : Date := ⟨kInvalidDate⟩

/-- `Date(year, month, day)` -/
def ofYearMonthDay (year month day : Int) : Date := ⟨fromJulianDay (getJulianDayNumber year month day)⟩

/-- `Date(ymd)` -/
def ofChrono (ymd : ChronoDate) : Date := ⟨if h : ymd.Ok then ymd.sysDays h.1 else kInvalidDate⟩

/-- `Date(julianDayNum)` -/
def ofJulianDay (julianDayNum : Int) : Date := ⟨if 0 < julianDayNum then fromJulianDay julianDayNum else kInvalidDate⟩

def valid (d : Date) : Bool := d.day ≠ kInvalidDate

def yearMonthDay (d : Date) : YearMonthDay :=
  if d.valid then
    let ymd := ChronoDate.ofSysDays d.day
    ⟨ymd.year, ymd.month, ymd.day⟩
  else ⟨0, 0, 0⟩

def julianDayNumber (d : Date) : Int := toJulianDay d.day

def weekDay (d : Date) : Int := (d.julianDayNumber + 1).tmod kDaysPerWeek

/-- `operator<=>` -/
instance : Ord Date := ⟨fun d d' => compare d.day d'.day⟩

end Date
end Muduo
