import Mathlib.Algebra.Order.Group.Int
import Muduo.TimeZone

/-! # Local time and back

A local time that the clock of a zone shows once, leads back to its moment; one that it shows twice leads back to both,
to the earlier one before the transition and to the later one after it; and for one that it skips the two choices are
exchanged, so that they are in order as well. -/

namespace Muduo
open Lib

/-! ## The moments of a local time -/

namespace ChronoZone
variable {z : ChronoZone} {t l : Int}

/-- The moment that `fromLocalTime` gives for a local time. -/
def moment (z : ChronoZone) (l : Int) (postTransition : Bool) : Int :=
  l - (TimeZone.pickInfoNoThrow (z.localInfo l) postTransition).offset

/-- What `get_info` tells of a local time, by how often it is shown. -/
inductive Reading (z : ChronoZone) (l : Int) : Prop
  | unique {x : SysInfo} (hshowing : z.showing l = [x]) (hinfo : z.localInfo l = ⟨.unique, x, noInfo⟩)
  | ambiguous {x y : SysInfo} (hshowing : z.showing l = [x, y]) (hinfo : z.localInfo l = ⟨.ambiguous, x, y⟩)
  | nonexistent {x y : SysInfo} (hshowing : z.showing l = []) (hinfo : z.localInfo l = ⟨.nonexistent, x, y⟩)
      (hlt : l - y.offset < l - x.offset)

theorem reading (z : ChronoZone) (l : Int) : z.Reading l := by
  have hlength : (z.showing l).length ≤ 2 := Timeline.length_showing_le z.apart l
  rcases hshowing : z.showing l with _ | ⟨x, _ | ⟨y, _ | ⟨w, rest⟩⟩⟩
  · rcases hfind : (neighbours z.stretches).find? fun p => p.1.Skips p.2 l with _ | ⟨x, y⟩
    · obtain ⟨p, hp, hskips⟩ := Timeline.exists_skips_of_showing hshowing
      exact absurd (decide_eq_true hskips) (List.find?_eq_none.mp hfind p hp)
    · have hskips := List.find?_some hfind
      rw [decide_eq_true_iff] at hskips
      refine .nonexistent hshowing ?_ (Timeline.lt_of_skips (List.mem_of_find?_eq_some hfind) hskips)
      rw [localInfo, hshowing]
      simp only [hfind]
  · refine .unique hshowing ?_
    rw [localInfo, hshowing]
  · refine .ambiguous hshowing ?_
    rw [localInfo, hshowing]
  · rw [hshowing] at hlength
    exact absurd hlength (by simp only [List.length_cons]; omega)

/-- The two choices are in order, and the same exactly if the time is that of one moment. -/
theorem moment_le (z : ChronoZone) (l : Int) :
    z.moment l false ≤ z.moment l true ∧ (z.moment l false = z.moment l true ↔ ∃! t, z.clock t = l) := by
  cases z.reading l with
  | @unique x hshowing hinfo =>
    have hone : ∃! t, z.clock t = l := by
      refine ⟨l - x.offset, ?_, ?_⟩
      · exact Timeline.clock_of_mem_showing (hshowing ▸ List.mem_singleton_self x)
      · intro t ht
        obtain ⟨y, hy, rfl⟩ := Timeline.clock_eq_iff.mp ht
        rw [hshowing] at hy
        rw [List.mem_singleton.mp hy]
    rw [moment, moment, hinfo]
    exact ⟨Int.le_refl _, iff_of_true rfl hone⟩
  | @ambiguous x y hshowing hinfo =>
    have hpair := Timeline.pairwise_showing z.toTimeline l
    rw [hshowing] at hpair
    have hlt : l - x.offset < l - y.offset := List.rel_of_pairwise_cons hpair (List.mem_singleton_self y)
    rw [moment, moment, hinfo]
    refine ⟨Int.le_of_lt hlt, iff_of_false (Int.ne_of_lt hlt) ?_⟩
    intro hone
    refine absurd (hone.unique ?_ ?_) (Int.ne_of_lt hlt)
    · exact Timeline.clock_of_mem_showing (hshowing ▸ List.mem_cons_self)
    · exact Timeline.clock_of_mem_showing (hshowing ▸ List.mem_cons_of_mem _ (List.mem_singleton_self y))
  | nonexistent hshowing hinfo hlt =>
    rw [moment, moment, hinfo]
    refine ⟨Int.le_of_lt hlt, iff_of_false (Int.ne_of_lt hlt) ?_⟩
    rintro ⟨t, ht, -⟩
    obtain ⟨x, hx, -⟩ := Timeline.clock_eq_iff.mp ht
    rw [hshowing] at hx
    cases hx

/-- The moment is found again by one of the two choices. -/
theorem moment_clock (z : ChronoZone) (t : Int) :
    z.moment (z.clock t) false = t ∨ z.moment (z.clock t) true = t := by
  obtain ⟨x, hx, ht⟩ := Timeline.clock_eq_iff.mp (rfl : z.clock t = z.clock t)
  rw [moment, moment]
  cases z.reading (z.clock t) with
  | unique hshowing hinfo =>
    rw [hshowing] at hx
    cases List.mem_singleton.mp hx
    rw [hinfo]
    exact .inl ht.symm
  | ambiguous hshowing hinfo =>
    rw [hshowing] at hx
    rw [hinfo]
    rcases List.mem_cons.mp hx with rfl | hx
    · exact .inl ht.symm
    · cases List.mem_singleton.mp hx
      exact .inr ht.symm
  | nonexistent hshowing hinfo hlt =>
    rw [hshowing] at hx
    cases hx

end ChronoZone

/-! ## Time zones -/

namespace TimeZoneData

/-- What the clocks show at a moment, in seconds. -/
def clock : TimeZoneData → Int → Int
  | .fixed eastOfUtc, t => t + eastOfUtc
  | .zone z, t => z.clock t

/-- The moment that `fromLocalTime` gives for a local time in seconds. -/
def moment : TimeZoneData → Int → Bool → Int
  | .fixed eastOfUtc, l, _ => l - eastOfUtc
  | .zone z, l, postTransition => z.moment l postTransition

theorem moment_le (data : TimeZoneData) (l : Int) :
    data.moment l false ≤ data.moment l true ∧
      (data.moment l false = data.moment l true ↔ ∃! t, data.clock t = l) := by
  cases data with
  | fixed eastOfUtc =>
    refine ⟨Int.le_refl _, iff_of_true rfl ⟨l - eastOfUtc, Int.sub_add_cancel _ _, ?_⟩⟩
    rintro t rfl
    exact (Int.add_sub_cancel _ _).symm
  | zone z => exact z.moment_le l

theorem moment_clock (data : TimeZoneData) (t : Int) :
    data.moment (data.clock t) false = t ∨ data.moment (data.clock t) true = t := by
  cases data with
  | fixed eastOfUtc => exact .inl (Int.add_sub_cancel _ _)
  | zone z => exact z.moment_clock t

end TimeZoneData

namespace TimeZone
variable {data : TimeZoneData} {unspecified : ChronoDate → Int}

theorem fromLocalTime_eq (dt : DateTime) (postTransition : Bool) :
    (⟨some data⟩ : TimeZone).fromLocalTime unspecified dt postTransition =
      .ok (data.moment (fromUtcTime unspecified dt) postTransition) := by
  cases data <;> rfl

theorem toLocalTime_eq (t : Int) :
    ∃ offset, (⟨some data⟩ : TimeZone).toLocalTime t = .ok (breakTime (data.clock t), offset) := by
  cases data with
  | fixed eastOfUtc => exact ⟨eastOfUtc, rfl⟩
  | zone z => exact ⟨(z.sysInfo t).offset, rfl⟩

theorem chronoField_natCast {n : Nat} (h : n < 256) : chronoField n = n := by
  unfold chronoField
  omega

/-- A date of the calendar and a time of the day, in seconds. -/
theorem fromUtcTime_civil {c : CivilDate} (hyear : -32767 ≤ c.year ∧ c.year ≤ 32767) (hour minute second : Int) :
    fromUtcTime unspecified ⟨c.year, c.month, c.day, hour, minute, second⟩ =
      c.dayNumber * 86400 + hour * 3600 + minute * 60 + second := by
  have hmonth : chronoField c.month = c.month := chronoField_natCast (Nat.lt_of_le_of_lt c.month_mem.2 (by decide))
  have hday : chronoField c.day = c.day :=
    chronoField_natCast (Nat.lt_of_le_of_lt (c.day_mem.2.trans (daysInMonth_le _ _)) (by decide))
  have hymd : (⟨chronoYear c.year, chronoField c.month, chronoField c.day⟩ : ChronoDate) = chronoDate c := by
    rw [chronoYear_of_ok hyear, hmonth, hday]
    rfl
  simp only [fromUtcTime, hymd, dif_pos (chronoDate_ok hyear).1, sysDays_chronoDate hyear]

/-- A time is put together again from its parts. -/
theorem fromUtcTime_breakTime {t : Int} (hyear : -32767 ≤ (CivilDate.ofDays (t / 86400)).year ∧
    (CivilDate.ofDays (t / 86400)).year ≤ 32767) : fromUtcTime unspecified (breakTime t) = t := by
  have hdate : ChronoDate.ofSysDays (t / 86400) = chronoDate (CivilDate.ofDays (t / 86400)) := by
    rw [← ofSysDays_dayNumber hyear, CivilDate.dayNumber_ofDays]
  rw [breakTime, hdate]
  refine (fromUtcTime_civil hyear _ _ _).trans ?_
  rw [CivilDate.dayNumber_ofDays]
  omega

/-- The year that the clocks show at a moment is in the range of `std::chrono::year`. -/
def LocalYearOk (data : TimeZoneData) (t : Int) : Prop :=
  -32767 ≤ (CivilDate.ofDays (data.clock t / 86400)).year ∧ (CivilDate.ofDays (data.clock t / 86400)).year ≤ 32767

instance (data : TimeZoneData) (t : Int) : Decidable (LocalYearOk data t) :=
  inferInstanceAs (Decidable (-32767 ≤ (CivilDate.ofDays (data.clock t / 86400)).year ∧
    (CivilDate.ofDays (data.clock t / 86400)).year ≤ 32767))

/-- For every valid time zone: a moment whose local year is in range is converted to a local time and back, by one of the
two choices, and by both if the clocks show this local time only then; and for every local time, skipped ones included,
the two choices are in order, and the same exactly if the clocks show it at one moment. -/
theorem local_time_inverts (data : TimeZoneData) (unspecified : ChronoDate → Int) :
    let tz : TimeZone := ⟨some data⟩
    (∀ t, LocalYearOk data t → ∃ dt offset, tz.toLocalTime t = .ok (dt, offset) ∧
        (tz.fromLocalTime unspecified dt false = .ok t ∨ tz.fromLocalTime unspecified dt true = .ok t) ∧
        ((∃! t', data.clock t' = fromUtcTime unspecified dt) →
          tz.fromLocalTime unspecified dt false = .ok t ∧ tz.fromLocalTime unspecified dt true = .ok t)) ∧
      ∀ dt, ∃ before after, tz.fromLocalTime unspecified dt false = .ok before ∧
        tz.fromLocalTime unspecified dt true = .ok after ∧ before ≤ after ∧
        (before = after ↔ ∃! t, data.clock t = fromUtcTime unspecified dt) := by
  intro tz
  constructor
  · intro t hyear
    obtain ⟨offset, hlocal⟩ := toLocalTime_eq t
    have hback : fromUtcTime unspecified (breakTime (data.clock t)) = data.clock t := fromUtcTime_breakTime hyear
    refine ⟨_, offset, hlocal, ?_⟩
    rw [fromLocalTime_eq, fromLocalTime_eq, hback]
    have hfound := data.moment_clock t
    refine ⟨hfound.imp (congrArg _) (congrArg _), ?_⟩
    intro hone
    have hsame := (data.moment_le (data.clock t)).2.mpr hone
    have hfirst : data.moment (data.clock t) false = t := hfound.elim id hsame.trans
    exact ⟨congrArg _ hfirst, congrArg _ (hsame.symm.trans hfirst)⟩
  · intro dt
    exact ⟨_, _, fromLocalTime_eq dt false, fromLocalTime_eq dt true, data.moment_le _⟩

/-- An hour ahead of UTC, and two hours from second 1000000 to second 2000000. -/
def summerTime : ChronoZone where
  offset := 3600
  shifts := [⟨1000000, 7200⟩, ⟨2000000, 3600⟩]
  ordered := by decide
  apart := by decide

/-- Second 2000000 shows a time for the second time; 15:00:00 on 12 January is skipped. -/
theorem summerTime_inverts :
    (∃ dt offset, (⟨some (.zone summerTime)⟩ : TimeZone).toLocalTime 2000000 = .ok (dt, offset) ∧
      ((⟨some (.zone summerTime)⟩ : TimeZone).fromLocalTime (fun _ => 0) dt false = .ok 2000000 ∨
        (⟨some (.zone summerTime)⟩ : TimeZone).fromLocalTime (fun _ => 0) dt true = .ok 2000000)) ∧
    ∃ before after,
      (⟨some (.zone summerTime)⟩ : TimeZone).fromLocalTime (fun _ => 0) ⟨1970, 1, 12, 15, 0, 0⟩ false = .ok before ∧
      (⟨some (.zone summerTime)⟩ : TimeZone).fromLocalTime (fun _ => 0) ⟨1970, 1, 12, 15, 0, 0⟩ true = .ok after ∧
      before ≤ after := by
  obtain ⟨hback, horder⟩ := local_time_inverts (.zone summerTime) fun _ => 0
  obtain ⟨dt, offset, hlocal, hfound, -⟩ := hback 2000000 (by decide)
  obtain ⟨before, after, hbefore, hafter, hle, -⟩ := horder ⟨1970, 1, 12, 15, 0, 0⟩
  exact ⟨⟨dt, offset, hlocal, hfound⟩, before, after, hbefore, hafter, hle⟩

end TimeZone
end Muduo
