import Mathlib.Data.String.Basic
import Muduo.Lib.Simulation
import Muduo.Theorems.LogFile

/-! # Log files in the order of their names

The time is printed with leading zeros, the year first, so the order of the names is that of the seconds in them. A roll
goes to another file only if the clock has advanced since the last one: even if the clock is set back, no line is
written to a file whose name comes before that of an earlier line. -/

namespace Muduo
open Lib

/-! ## Names -/

namespace LogFileConfig

/-- The first second of the year 10000. -/
def year10000 : Int := 253402300800

/-- The date as a number with eight digits. -/
def dateNumber (date : CivilDate) : Nat := (date.year.toNat * 10 ^ 2 + date.month) * 10 ^ 2 + date.day

/-- The time of the day as a number with six digits. -/
def timeNumber (time : Nat) : Nat := (time / 3600 * 10 ^ 2 + time % 3600 / 60) * 10 ^ 2 + time % 60

theorem toList_utcStamp (second : Int) :
    (utcStamp second).toList = ['.'] ++ digits 8 (dateNumber (CivilDate.ofDays (second / 86400))) ++
      (['-'] ++ digits 6 (timeNumber (second % 86400).toNat) ++ ['.']) := by
  have hdate := (CivilDate.ofDays (second / 86400)).month_mem
  have hday := (CivilDate.ofDays (second / 86400)).day_mem
  have hdays := daysInMonth_le (CivilDate.ofDays (second / 86400)).year (CivilDate.ofDays (second / 86400)).month
  rw [utcStamp, String.toList_ofList, digits_append (by omega) 4, digits_append (by omega) (4 + 2),
    digits_append (by omega) 2, digits_append (by omega) (2 + 2)]
  simp [dateNumber, timeNumber]

theorem year_ofDays {days : Int} (h : 0 ≤ days) (hmax : days < 2932897) :
    0 ≤ (CivilDate.ofDays days).year ∧ (CivilDate.ofDays days).year ≤ 9999 := by
  have hnumber := CivilDate.dayNumber_ofDays days
  constructor
  · by_contra hyear
    have hlt : (CivilDate.ofDays days).dayNumber < CivilDate.epoch.dayNumber :=
      CivilDate.dayNumber_lt_of_year (lt_trans (not_le.mp hyear) (by decide))
    rw [CivilDate.dayNumber_epoch] at hlt
    omega
  · by_contra hyear
    have hlt : (CivilDate.last 9999 12 (by decide)).dayNumber < (CivilDate.ofDays days).dayNumber :=
      CivilDate.dayNumber_lt_of_year (not_le.mp hyear)
    have hlast : (CivilDate.last 9999 12 (by decide)).dayNumber = 2932896 := by decide
    omega

theorem dateNumber_lt {a b : CivilDate} (h : a.dayNumber < b.dayNumber) (ha : 0 ≤ a.year) : dateNumber a < dateNumber b := by
  have hyear : a.year ≤ b.year := le_of_not_gt fun hlt => absurd (CivilDate.dayNumber_lt_of_year hlt) (by omega)
  have hmonth : a.year = b.year → a.month ≤ b.month :=
    fun heq => le_of_not_gt fun hlt => absurd (CivilDate.dayNumber_lt_of_month heq.symm hlt) (by omega)
  have hday : a.year = b.year → a.month = b.month → a.day < b.day := by
    intro hyear hmonth
    by_contra hle
    rcases Nat.lt_or_eq_of_le (Nat.le_of_not_lt hle) with hlt | heq
    · exact absurd (CivilDate.dayNumber_lt_of_day hyear.symm hmonth.symm hlt) (by omega)
    · rw [CivilDate.ext hyear hmonth heq.symm] at h
      exact absurd h (lt_irrefl _)
  have hmonths := a.month_mem
  have hmonths' := b.month_mem
  have hdays := a.day_mem
  have hmax := daysInMonth_le a.year a.month
  have hdays' := b.day_mem
  unfold dateNumber
  omega

theorem timeNumber_lt {a b : Nat} (h : a < b) : timeNumber a < timeNumber b := by
  unfold timeNumber
  omega

variable {c : LogFileConfig} {a b : Int}

theorem fileName_lt (hstamp : c.stamp = utcStamp) (ha : 0 ≤ a) (h : a < b) (hb : b < year10000) :
    c.fileName a < c.fileName b := by
  have hstamps : ∀ rest rest' : List Char, (utcStamp a).toList ++ rest < (utcStamp b).toList ++ rest' := by
    intro rest rest'
    unfold year10000 at hb
    rw [toList_utcStamp, toList_utcStamp]
    simp only [List.append_assoc]
    refine append_lt _ ?_
    rcases lt_or_ge (a / 86400) (b / 86400) with hday | hday
    · have hyears : 0 ≤ (CivilDate.ofDays (a / 86400)).year ∧ _ := year_ofDays (by omega) (by omega)
      have hyears' : 0 ≤ (CivilDate.ofDays (b / 86400)).year ∧ _ := year_ofDays (by omega) (by omega)
      refine lt_append (by simp) (digits_lt (dateNumber_lt ?_ hyears.1) ?_) _ _
      · rw [CivilDate.dayNumber_ofDays, CivilDate.dayNumber_ofDays]
        exact hday
      · have hmonths := (CivilDate.ofDays (b / 86400)).month_mem
        have hdays := (CivilDate.ofDays (b / 86400)).day_mem
        have hmax := daysInMonth_le (CivilDate.ofDays (b / 86400)).year (CivilDate.ofDays (b / 86400)).month
        unfold dateNumber
        omega
    · have hsame : a / 86400 = b / 86400 := by omega
      rw [hsame]
      refine append_lt _ (append_lt _ (lt_append (by simp) (digits_lt (timeNumber_lt ?_) ?_) _ _))
      · omega
      · unfold timeNumber
        omega
  rw [String.lt_iff_toList_lt]
  simp only [fileName, hstamp, String.toList_append, List.append_assoc]
  exact append_lt _ (hstamps _ _)

theorem fileName_mono (hstamp : c.stamp = utcStamp) (ha : 0 ≤ a) (h : a ≤ b) (hb : b < year10000) :
    c.fileName a ≤ c.fileName b := by
  rcases Int.lt_or_eq_of_le h with hlt | rfl
  · exact (fileName_lt hstamp ha hlt hb).le
  · exact le_rfl

end LogFileConfig

/-! ## What is in the files -/

namespace LogFile
variable {c : LogFileConfig} {clock : Nat → Int} {s t : LogFile} {line : Bytes}

/-- What is in the file of a name: it is opened to append, so a name that comes again is continued. -/
def contents (s : LogFile) (name : String) : Bytes := (s.written.reverse.filter fun x => x.1 = name).flatMap Prod.snd

/-- All that was ever written. -/
def text (s : LogFile) : Bytes := s.written.reverse.flatMap Prod.snd

/-- The names of all files that were opened, each once, in order. -/
structure Listing (s : LogFile) (names : List String) : Prop where
  sorted : names.Pairwise (· < ·)
  complete : ∀ name, name ∈ names ↔ name ∈ s.rolled

/-- The clock is after the epoch and before the year 10000. -/
def ClockInRange (clock : Nat → Int) : Prop := ∀ k, 0 < clock k ∧ floorSeconds (clock k) < LogFileConfig.year10000

/-- The name for the last roll. -/
def currentName (c : LogFileConfig) (s : LogFile) : String := c.fileName (floorSeconds s.lastRoll)

/-- The current file, if there is one, is the last in order, and the lines are in the order of the files. -/
structure InOrder (c : LogFileConfig) (s : LogFile) : Prop where
  lastRoll : 0 ≤ s.lastRoll
  file : ∀ file ∈ s.file, file.name = currentName c s ∧ file.name ∈ s.rolled
  rolled : ∀ name ∈ s.rolled, name ≤ currentName c s
  opened : ∀ x ∈ s.written, x.1 ∈ s.rolled
  written : s.written.Pairwise fun x y => y.1 ≤ x.1

theorem InOrder.init : InOrder c {} where
  lastRoll := le_rfl
  file _ h := by cases h
  rolled _ h := by cases h
  opened _ h := by cases h
  written := List.Pairwise.nil

theorem InOrder.read (hs : InOrder c s) {names : List String} (hnames : Listing s names) :
    names.flatMap s.contents = s.text := by
  have hsorted : s.written.reverse.Pairwise fun x y => x.1 ≤ y.1 := List.pairwise_reverse.mpr hs.written
  have hall : ∀ x ∈ s.written.reverse, x.1 ∈ names :=
    fun x hx => (hnames.complete _).mpr (hs.opened x (List.mem_reverse.mp hx))
  unfold text
  conv_rhs => rw [← flatMap_filter_key hnames.sorted hsorted hall, List.flatMap_assoc]
  rfl

theorem InOrder.same (hs : InOrder c s) (h : Same s t) : InOrder c t := by
  obtain ⟨hlastRoll, hfile, -, hwritten, hrolled⟩ := h
  have hname : currentName c t = currentName c s := by rw [currentName, hlastRoll, currentName]
  constructor
  · rw [hlastRoll]
    exact hs.lastRoll
  · rw [hfile, hname, hrolled]
    exact hs.file
  · rw [hname, hrolled]
    exact hs.rolled
  · rw [hwritten, hrolled]
    exact hs.opened
  · rw [hwritten]
    exact hs.written

theorem InOrder.write (hs : InOrder c s) {file : OpenLog} (hfile : s.file = some file) (line : Bytes) :
    InOrder c (s.write file line) := by
  obtain ⟨hname, hopen⟩ := hs.file file hfile
  refine ⟨hs.lastRoll, ?_, hs.rolled, ?_, ?_⟩
  · intro file' hfile'
    cases hfile'
    exact ⟨hname, hopen⟩
  · exact List.forall_mem_cons.mpr ⟨hopen, hs.opened⟩
  · refine List.pairwise_cons.mpr ⟨?_, hs.written⟩
    intro x hx
    change x.1 ≤ file.name
    rw [hname]
    exact hs.rolled _ (hs.opened x hx)

section
variable (hstamp : c.stamp = LogFileConfig.utcStamp) (hclock : ClockInRange clock)
include hstamp hclock

/-- A roll at a time that is not before that of the last roll `s`, of this `LogFile` or of one before it. -/
theorem InOrder.rolled_after (hs : InOrder c s) (hwritten : t.written = s.written) (hrolled : t.rolled = s.rolled)
    (hnext : s.lastRoll ≤ clock (t.readings + 1)) (hlater : clock (t.readings + 1) > t.lastRoll) :
    InOrder c (rollFile c clock t).2 := by
  obtain ⟨hpositive, hrange⟩ := hclock (t.readings + 1)
  have hmono : currentName c s ≤ c.fileName (floorSeconds (clock (t.readings + 1))) :=
    LogFileConfig.fileName_mono hstamp (Int.ediv_nonneg hs.lastRoll (by decide)) (floorSeconds_mono hnext) hrange
  simp only [rollFile, if_pos hlater, hwritten, hrolled]
  refine ⟨hpositive.le, ?_, ?_, ?_, hs.written⟩
  · intro file hfile
    cases hfile
    exact ⟨rfl, List.mem_cons_self⟩
  · exact List.forall_mem_cons.mpr ⟨le_rfl, fun name hname => (hs.rolled name hname).trans hmono⟩
  · exact fun x hx => List.mem_cons_of_mem _ (hs.opened x hx)

theorem InOrder.roll (hs : InOrder c s) : InOrder c (rollFile c clock s).2 := by
  by_cases hlater : clock (s.readings + 1) > s.lastRoll
  · exact hs.rolled_after hstamp hclock rfl rfl hlater.le hlater
  · -- the clock was set back: the file stays
    simp only [rollFile, if_neg hlater]
    exact hs.same ⟨rfl, rfl, Nat.le_add_right _ _, rfl, rfl⟩

theorem InOrder.of_effect (hs : InOrder c s) (h : Effect c clock s t) : InOrder c t := by
  cases h with
  | same h => exact hs.same h
  | rolls mid h ht => exact ht ▸ (hs.same h).roll hstamp hclock
  | writes file line hfile h _ => exact (hs.write hfile line).same h
  | writesRolls file line mid hfile h ht => exact ht ▸ ((hs.write hfile line).same h).roll hstamp hclock

end

theorem rollFile_isSome (h : s.file.isSome = true ∨ clock (s.readings + 1) > s.lastRoll) :
    (rollFile c clock s).2.file.isSome = true := by
  unfold rollFile
  simp only
  split
  · rfl
  · rename_i hearly
    exact h.resolve_right hearly

theorem isSome_of_effect (hs : s.file.isSome = true) (h : Effect c clock s t) : t.file.isSome = true := by
  cases h with
  | same h => rw [h.file, hs]
  | rolls mid h ht => exact ht ▸ rollFile_isSome (.inl (by rw [h.file, hs]))
  | writes file line hfile h _ =>
    rw [h.file]
    rfl
  | writesRolls file line mid hfile h ht => exact ht ▸ rollFile_isSome (.inl (by rw [h.file]; rfl))

/-! ## Runs -/

theorem text_write (file : OpenLog) : (s.write file line).text = s.text ++ line := by
  simp [text, LogFile.write]

theorem text_rollFile (s : LogFile) : (rollFile c clock s).2.text = s.text := by
  unfold rollFile
  simp only
  split <;> rfl

theorem text_checkPeriod (s : LogFile) : (checkPeriod c clock s).text = s.text := by
  unfold checkPeriod
  simp only
  split
  · exact text_rollFile _
  · split <;> rfl

theorem text_appendUnlocked (h : appendUnlocked c clock line s = some t) : t.text = s.text ++ line := by
  unfold appendUnlocked at h
  split at h
  · cases h
  · rename_i file _
    simp only at h
    split at h
    · cases h
      rw [text_rollFile, text_write]
    · split at h
      · cases h
        rw [text_checkPeriod, text_write]
      · cases h
        exact text_write file

theorem appendUnlocked_isSome (h : s.file.isSome = true) : (appendUnlocked c clock line s).isSome = true := by
  obtain ⟨file, hfile⟩ := Option.isSome_iff_exists.mp h
  unfold appendUnlocked
  rw [hfile]
  simp only
  split
  · rfl
  · split <;> rfl

/-- What a call appends. -/
def Event.appends : Event → Bytes
  | .append line => line
  | .flush | .rollFile => []

theorem text_step {e : Event} (h : s.step c clock e = some t) : t.text = s.text ++ e.appends := by
  cases e with
  | append line => exact text_appendUnlocked h
  | flush =>
    obtain ⟨file, -, rfl⟩ := Option.map_eq_some_iff.mp h
    exact (List.append_nil _).symm
  | rollFile =>
    cases h
    rw [text_rollFile, Event.appends, List.append_nil]

theorem text_run {es : List Event} (hrun : (system c clock).Run (fun _ _ => True) s es t) :
    t.text = s.text ++ es.flatMap Event.appends := by
  induction hrun with
  | nil => exact (List.append_nil _).symm
  | cons _ hstep _ ih => rw [ih, text_step hstep, List.flatMap_cons, List.append_assoc]

theorem step_isSome (h : s.file.isSome = true) (e : Event) : (s.step c clock e).isSome = true := by
  cases e with
  | append line => exact appendUnlocked_isSome h
  | flush => rw [step, Option.isSome_map, h]
  | rollFile => rfl

/-- If all writes succeed, then whatever the clock reads after the epoch and before the year 10000, also if it is set back,
and however often files are rolled, by size, by day or by `rollFile`: what is in the files, read in the order of their
names, is what was appended, in the order of the calls. No call finds the file missing. -/
theorem logs_in_name_order {es : List Event} {names : List String} (hstamp : c.stamp = LogFileConfig.utcStamp)
    (hclock : ClockInRange clock) (hrun : (system c clock).Run (fun _ _ => True) (new c clock) es s)
    (hnames : Listing s names) :
    names.flatMap s.contents = es.flatMap Event.appends ∧ ∀ e, (s.step c clock e).isSome = true := by
  obtain ⟨hs, hopen⟩ : InOrder c s ∧ s.file.isSome = true := by
    refine hrun.invariant (I := fun s => InOrder c s ∧ s.file.isSome = true) ?_ ?_
    · intro s t e hs _ hstep
      have heffect := effect_of_step hstep
      exact ⟨hs.1.of_effect hstamp hclock heffect, isSome_of_effect hs.2 heffect⟩
    · exact ⟨InOrder.init.roll hstamp hclock, rollFile_isSome (.inr (hclock 1).1)⟩
  refine ⟨?_, step_isSome hopen⟩
  rw [hs.read hnames, text_run hrun, new, text_rollFile]
  rfl

/-- Log files of a process, with a roll after every line. -/
def rollsEachLine : LogFileConfig where
  basename := "log"
  rollSize := 0
  stamp := LogFileConfig.utcStamp
  hostname := "host"
  pid := 7

/-- The clock goes up to a quarter of an hour after the epoch, and is then set back to the first minute. -/
def setBack (k : Nat) : Int := (if k < 4 then 200 * (k + 1) else k % 60 + 1) * nanosPerSecond

def setBackNames : List String := ["log.19700101-000640.host.7.log", "log.19700101-001320.host.7.log"]

theorem logs_in_name_order_setBack :
    ∃ s, (system rollsEachLine setBack).Run (fun _ _ => True) (new rollsEachLine setBack)
        [.append [1, 2], .append [3], .rollFile, .append [4]] s ∧
      setBackNames.flatMap s.contents = [1, 2, 3, 4] ∧ ∀ e, (s.step rollsEachLine setBack e).isSome = true := by
  have hreplay : ((system rollsEachLine setBack).checked (fun _ _ => True) (new rollsEachLine setBack)
      [.append [1, 2], .append [3], .rollFile, .append [4]]).any
        fun s => decide (s.rolled = setBackNames.reverse) := by decide +kernel
  obtain ⟨s, hrun, hrolled⟩ := Stepper.Run.of_any hreplay
  have hclock : ClockInRange setBack := by
    intro k
    simp only [setBack, floorSeconds, nanosPerSecond, LogFileConfig.year10000]
    split <;> omega
  have hnames : Listing s setBackNames := by
    refine ⟨by decide +kernel, fun name => ?_⟩
    rw [of_decide_eq_true hrolled, List.mem_reverse]
  exact ⟨s, hrun, logs_in_name_order rfl hclock hrun hnames⟩

end LogFile
end Muduo
