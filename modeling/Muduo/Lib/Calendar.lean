import Mathlib.Data.Int.Order.Basic
import Mathlib.Data.Nat.Basic
import Mathlib.Logic.Function.Iterate
import Mathlib.Order.Compare

/-! # The proleptic Gregorian calendar

The dates, with the lengths of the months and the leap years, and the way from one day to the next and back. Every
date has a number, its distance from 1 January 1970 in days, and every number is that of one date; the order of the
numbers is that of year, month and day. -/

namespace Lib

/-- Every fourth year, but of the full centuries only every fourth. -/
def isLeap (year : Int) : Bool := year % 4 = 0 ∧ (year % 100 = 0 → year % 400 = 0)

theorem isLeap_iff (year : Int) : isLeap year ↔ year % 4 = 0 ∧ (year % 100 = 0 → year % 400 = 0) := decide_eq_true_iff

def daysInMonth (year : Int) : Nat → Nat
  | 2 => if isLeap year then 29 else 28
  | 4 | 6 | 9 | 11 => 30
  | _ => 31

theorem daysInMonth_pos (year : Int) (month : Nat) : 1 ≤ daysInMonth year month := by
  unfold daysInMonth
  split
  · split <;> decide
  all_goals decide

theorem daysInMonth_le (year : Int) (month : Nat) : daysInMonth year month ≤ 31 := by
  unfold daysInMonth
  split
  · split <;> decide
  all_goals decide

@[ext]
structure CivilDate where
  year : Int
  month : Nat
  day : Nat
  month_mem : 1 ≤ month ∧ month ≤ 12
  day_mem : 1 ≤ day ∧ day ≤ daysInMonth year month
  deriving DecidableEq

namespace CivilDate
variable {a b c : CivilDate}

/-! ## From day to day -/

/-- The first day of a month. -/
def first (year : Int) (month : Nat) (h : 1 ≤ month ∧ month ≤ 12) : CivilDate :=
  ⟨year, month, 1, h, Nat.le_refl 1, daysInMonth_pos year month⟩

/-- The last day of a month. -/
def last (year : Int) (month : Nat) (h : 1 ≤ month ∧ month ≤ 12) : CivilDate :=
  ⟨year, month, daysInMonth year month, h, daysInMonth_pos year month, Nat.le_refl _⟩

def next (c : CivilDate) : CivilDate :=
  if hday : c.day < daysInMonth c.year c.month then ⟨c.year, c.month, c.day + 1, c.month_mem, Nat.le_add_left 1 _, hday⟩
  else if hmonth : c.month < 12 then first c.year (c.month + 1) ⟨Nat.le_add_left 1 _, hmonth⟩
  else first (c.year + 1) 1 (by decide)

def prev (c : CivilDate) : CivilDate :=
  if hday : 1 < c.day then
    ⟨c.year, c.month, c.day - 1, c.month_mem, Nat.le_sub_one_of_lt hday, Nat.le_trans (Nat.sub_le _ 1) c.day_mem.2⟩
  else if hmonth : 1 < c.month then
    last c.year (c.month - 1) ⟨Nat.le_sub_one_of_lt hmonth, Nat.le_trans (Nat.sub_le _ 1) c.month_mem.2⟩
  else last (c.year - 1) 12 (by decide)

theorem next_last {year : Int} {month : Nat} (h : 1 ≤ month ∧ month ≤ 12) (hlt : month < 12) :
    (last year month h).next = first year (month + 1) ⟨Nat.le_add_left 1 _, hlt⟩ :=
  (dif_neg (Nat.lt_irrefl _)).trans (dif_pos hlt)

theorem next_last_december (year : Int) : (last year 12 (by decide)).next = first (year + 1) 1 (by decide) :=
  (dif_neg (Nat.lt_irrefl _)).trans (dif_neg (Nat.lt_irrefl _))

theorem next_prev (c : CivilDate) : c.prev.next = c := by
  have hmonth := c.month_mem
  have hday := c.day_mem
  unfold prev
  split
  · rename_i hlt
    have hroom : c.day - 1 < daysInMonth c.year c.month := by omega
    have hback : c.day - 1 + 1 = c.day := by omega
    rw [next, dif_pos hroom]
    exact CivilDate.ext rfl rfl hback
  · have hfirst : 1 = c.day := by omega
    split
    · rename_i hlt
      have hback : c.month - 1 + 1 = c.month := by omega
      rw [next_last _ (by omega)]
      exact CivilDate.ext rfl hback hfirst
    · have hjanuary : 1 = c.month := by omega
      rw [next_last_december]
      exact CivilDate.ext (Int.sub_add_cancel _ 1) hjanuary hfirst

/-! ## The number of a day -/

/-- The days of the months before. -/
def daysBeforeMonth (year : Int) : Nat → Nat
  | 0 | 1 => 0
  | month + 2 => daysBeforeMonth year (month + 1) + daysInMonth year (month + 1)

/-- The days of the years before, up to a constant. -/
def daysBeforeYear (year : Int) : Int := 365 * year + (year - 1) / 4 - (year - 1) / 100 + (year - 1) / 400

/-- How many days after 1 January 1970. -/
def dayNumber (c : CivilDate) : Int := daysBeforeYear c.year + daysBeforeMonth c.year c.month + c.day - 719528

def epoch : CivilDate := first 1970 1 (by decide)

/-- The Julian day number: day 0 is 24 November −4713. -/
def julianDay (c : CivilDate) : Int := c.dayNumber + 2440588

/-- The date that is `n` days after 1 January 1970. -/
def ofDays : Int → CivilDate
  | .ofNat n => next^[n] epoch
  | .negSucc n => prev^[n + 1] epoch

theorem daysBeforeMonth_succ {year : Int} {month : Nat} (h : 1 ≤ month) :
    daysBeforeMonth year (month + 1) = daysBeforeMonth year month + daysInMonth year month := by
  obtain ⟨month, rfl⟩ : ∃ k, month = k + 1 := ⟨month - 1, by omega⟩
  rfl

theorem daysBeforeYear_succ (year : Int) :
    daysBeforeYear (year + 1) = daysBeforeYear year + daysBeforeMonth year 12 + daysInMonth year 12 := by
  have hleap := isLeap_iff year
  simp only [daysBeforeYear, daysBeforeMonth, daysInMonth]
  split
  · rename_i h
    have hyes := hleap.mp h
    omega
  · rename_i h
    have hnot := mt hleap.mpr h
    omega

theorem dayNumber_next (c : CivilDate) : c.next.dayNumber = c.dayNumber + 1 := by
  have hmonth := c.month_mem
  have hday := c.day_mem
  unfold next
  split
  · simp only [dayNumber]
    omega
  · have hlast : c.day = daysInMonth c.year c.month := by omega
    split
    · simp only [dayNumber, first, daysBeforeMonth_succ hmonth.1, hlast]
      omega
    · have hdecember : c.month = 12 := by omega
      rw [hdecember] at hlast
      simp only [dayNumber, first, hdecember, hlast, daysBeforeYear_succ, daysBeforeMonth]
      omega

theorem dayNumber_prev (c : CivilDate) : c.prev.dayNumber = c.dayNumber - 1 := by
  have h := dayNumber_next c.prev
  rw [next_prev] at h
  omega

theorem dayNumber_epoch : epoch.dayNumber = 0 := by decide

theorem dayNumber_ofDays (n : Int) : (ofDays n).dayNumber = n := by
  have hnext : ∀ k : Nat, (next^[k] epoch).dayNumber = k := by
    intro k
    induction k with
    | zero => exact dayNumber_epoch
    | succ k ih => rw [Function.iterate_succ_apply', dayNumber_next, ih, Int.natCast_succ]
  have hprev : ∀ k : Nat, (prev^[k] epoch).dayNumber = -k := by
    intro k
    induction k with
    | zero => exact dayNumber_epoch
    | succ k ih =>
      rw [Function.iterate_succ_apply', dayNumber_prev, ih]
      omega
  cases n with
  | ofNat k => exact hnext k
  | negSucc k => exact hprev (k + 1)

/-! ## The order of the days -/

theorem daysBeforeYear_mono {y y' : Int} (h : y ≤ y') : daysBeforeYear y ≤ daysBeforeYear y' := by
  unfold daysBeforeYear
  omega

theorem daysBeforeMonth_mono {year : Int} {m m' : Nat} (h : m ≤ m') :
    daysBeforeMonth year m ≤ daysBeforeMonth year m' := by
  induction h with
  | refl => exact Nat.le_refl _
  | @step k h ih =>
    refine Nat.le_trans ih ?_
    cases k with
    | zero => exact Nat.le_refl _
    | succ k => exact Nat.le_add_right _ _

/-- No day of a month is behind the beginning of a later one. -/
theorem dayOfYear_le (c : CivilDate) {month : Nat} (h : c.month < month) :
    daysBeforeMonth c.year c.month + c.day ≤ daysBeforeMonth c.year month := by
  have hmono : daysBeforeMonth c.year (c.month + 1) ≤ daysBeforeMonth c.year month := daysBeforeMonth_mono h
  rw [daysBeforeMonth_succ c.month_mem.1] at hmono
  exact Nat.le_trans (Nat.add_le_add_left c.day_mem.2 _) hmono

theorem dayNumber_lt_of_year (h : a.year < b.year) : a.dayNumber < b.dayNumber := by
  have hyears : daysBeforeYear (a.year + 1) ≤ daysBeforeYear b.year := daysBeforeYear_mono h
  have hin : daysBeforeMonth a.year a.month + a.day ≤ daysBeforeMonth a.year 13 :=
    a.dayOfYear_le (Nat.lt_succ_of_le a.month_mem.2)
  have hday := b.day_mem.1
  rw [daysBeforeYear_succ, Int.add_assoc] at hyears
  rw [daysBeforeMonth_succ (by decide)] at hin
  unfold dayNumber
  omega

theorem dayNumber_lt_of_month (hyear : a.year = b.year) (h : a.month < b.month) : a.dayNumber < b.dayNumber := by
  have hin := a.dayOfYear_le h
  have hday := b.day_mem.1
  unfold dayNumber
  rw [← hyear]
  omega

theorem dayNumber_lt_of_day (hyear : a.year = b.year) (hmonth : a.month = b.month) (h : a.day < b.day) :
    a.dayNumber < b.dayNumber := by
  unfold dayNumber
  rw [← hyear, ← hmonth]
  omega

/-- The days are in the lexicographic order of year, month and day. -/
theorem compare_dayNumber (a b : CivilDate) :
    compare a.dayNumber b.dayNumber =
      (compare a.year b.year).then ((compare a.month b.month).then (compare a.day b.day)) := by
  rcases lt_trichotomy a.year b.year with hlt | heq | hgt
  · rw [compare_lt_iff_lt.mpr hlt, compare_lt_iff_lt.mpr (dayNumber_lt_of_year hlt)]
    rfl
  · rw [compare_eq_iff_eq.mpr heq, Ordering.eq_then]
    rcases lt_trichotomy a.month b.month with hlt | heq' | hgt
    · rw [compare_lt_iff_lt.mpr hlt, compare_lt_iff_lt.mpr (dayNumber_lt_of_month heq hlt)]
      rfl
    · rw [compare_eq_iff_eq.mpr heq', Ordering.eq_then]
      rcases lt_trichotomy a.day b.day with hlt | heq'' | hgt
      · rw [compare_lt_iff_lt.mpr hlt, compare_lt_iff_lt.mpr (dayNumber_lt_of_day heq heq' hlt)]
      · rw [CivilDate.ext heq heq' heq'', compare_eq_iff_eq.mpr rfl, compare_eq_iff_eq.mpr rfl]
      · rw [compare_gt_iff_gt.mpr hgt, compare_gt_iff_gt.mpr (dayNumber_lt_of_day heq.symm heq'.symm hgt)]
    · rw [compare_gt_iff_gt.mpr hgt, compare_gt_iff_gt.mpr (dayNumber_lt_of_month heq.symm hgt)]
      rfl
  · rw [compare_gt_iff_gt.mpr hgt, compare_gt_iff_gt.mpr (dayNumber_lt_of_year hgt)]
    rfl

theorem dayNumber_injective (h : a.dayNumber = b.dayNumber) : a = b := by
  have hcompare := compare_dayNumber a b
  rw [compare_eq_iff_eq.mpr h, eq_comm, Ordering.then_eq_eq, Ordering.then_eq_eq] at hcompare
  exact CivilDate.ext (compare_eq_iff_eq.mp hcompare.1) (compare_eq_iff_eq.mp hcompare.2.1)
    (compare_eq_iff_eq.mp hcompare.2.2)

theorem ofDays_dayNumber (c : CivilDate) : ofDays c.dayNumber = c := dayNumber_injective (dayNumber_ofDays _)

end CivilDate
end Lib
