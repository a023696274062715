import Mathlib.Algebra.GroupWithZero.Nat
import Muduo.LogFile

/-! # Rolling log files

A file is left when it has grown beyond the roll size, so it gets at most one line more than that; but its name is that
of a second, and a file with the same name is continued, not replaced. So the bound holds of the names if no two rolls fall
into the same second. -/

namespace Muduo
open Lib

theorem LogFileConfig.stamp_of_fileName {c : LogFileConfig} {second second' : Int}
    (h : c.fileName second = c.fileName second') : c.stamp second = c.stamp second' := by
  have hlist := congrArg String.toList h
  simp only [fileName, String.toList_append, List.append_assoc] at hlist
  have hstamp := List.append_cancel_right (List.append_cancel_left hlist)
  exact String.toList_inj.mp hstamp

namespace LogFile
variable {c : LogFileConfig} {clock : Nat → Int} {s t : LogFile} {file : OpenLog} {line : Bytes}

/-- The bytes ever written to a file name. -/
def bytesTo (name : String) (written : List (String × Bytes)) : Nat :=
  ((written.filter fun x => x.1 = name).map fun x => x.2.length).sum

def longest (written : List (String × Bytes)) : Nat := (written.map fun x => x.2.length).foldr max 0

theorem bytesTo_cons {name name' : String} {written : List (String × Bytes)} :
    bytesTo name ((name', line) :: written) = (if name' = name then line.length else 0) + bytesTo name written := by
  by_cases h : name' = name <;> simp [bytesTo, h]

theorem bytesTo_eq_zero {name : String} {written : List (String × Bytes)} (h : ∀ x ∈ written, x.1 ≠ name) :
    bytesTo name written = 0 := by
  have hnone : written.filter (fun x => x.1 = name) = [] := by
    rw [List.filter_eq_nil_iff]
    intro x hx
    simpa using h x hx
  simp [bytesTo, hnone]

/-- Seconds that the clock has read are printed differently. -/
def StampsApart (c : LogFileConfig) (clock : Nat → Int) (n : Nat) : Prop :=
  ∀ j < n, ∀ k < n, c.stamp (floorSeconds (clock j)) = c.stamp (floorSeconds (clock k)) →
    floorSeconds (clock j) = floorSeconds (clock k)

instance (n : Nat) : Decidable (StampsApart c clock n) :=
  inferInstanceAs (Decidable (∀ j < n, ∀ k < n, _ → _))

/-- A roll falls into another second than the one before. -/
def RollsApart (c : LogFileConfig) (clock : Nat → Int) (s : LogFile) (e : Event) : Prop :=
  ∀ t ∈ s.step c clock e, t.rolled.length = s.rolled.length ∨ floorSeconds t.lastRoll ≠ floorSeconds s.lastRoll

instance (s : LogFile) (e : Event) : Decidable (RollsApart c clock s e) :=
  inferInstanceAs (Decidable (∀ t ∈ s.step c clock e, _))

/-! ## What holds between the calls -/

/-- All of it but that the current file is not full. -/
structure Tidy (c : LogFileConfig) (clock : Nat → Int) (s : LogFile) : Prop where
  lastRoll : ∃ j < s.readings, s.lastRoll = clock j
  rolled : ∀ name ∈ s.rolled, ∃ j < s.readings, name = c.fileName (floorSeconds (clock j)) ∧ clock j ≤ s.lastRoll
  nodup : s.rolled.Nodup
  written : ∀ x ∈ s.written, x.1 ∈ s.rolled
  bound : ∀ name, bytesTo name s.written ≤ c.rollSize + longest s.written
  file : ∃ file, s.file = some file ∧ file.name ∈ s.rolled ∧ file.file.writtenBytes = bytesTo file.name s.written

/-- The current file has not grown beyond the roll size. -/
def HasRoom (c : LogFileConfig) (s : LogFile) : Prop := ∀ file, s.file = some file → file.file.writtenBytes ≤ c.rollSize

/-- What is written and rolled is the same. -/
structure Same (s t : LogFile) : Prop where
  lastRoll : t.lastRoll = s.lastRoll
  file : t.file = s.file
  readings : s.readings ≤ t.readings
  written : t.written = s.written
  rolled : t.rolled = s.rolled

theorem Tidy.same (hs : Tidy c clock s) (h : Same s t) : Tidy c clock t := by
  obtain ⟨hlastRoll, hfile, hreadings, hwritten, hrolled⟩ := h
  obtain ⟨⟨j, hj, hlast⟩, hnames, hnodup, hlines, hbound, hcurrent⟩ := hs
  refine ⟨⟨j, by omega, hlastRoll.trans hlast⟩, ?_, ?_, ?_, ?_, ?_⟩
  · rw [hrolled, hlastRoll]
    intro name hname
    obtain ⟨j, hj, hrest⟩ := hnames name hname
    exact ⟨j, by omega, hrest⟩
  · rw [hrolled]
    exact hnodup
  · rw [hwritten, hrolled]
    exact hlines
  · rw [hwritten]
    exact hbound
  · rw [hfile, hrolled, hwritten]
    exact hcurrent

theorem HasRoom.same (hs : HasRoom c s) (h : Same s t) : HasRoom c t := by
  intro file hfile
  rw [h.file] at hfile
  exact hs file hfile

theorem Tidy.write (hs : Tidy c clock s) (hroom : HasRoom c s) (hfile : s.file = some file) (line : Bytes) :
    Tidy c clock (s.write file line) := by
  obtain ⟨hlast, hnames, hnodup, hlines, hbound, ⟨file', hfile', hname, hcount⟩⟩ := hs
  obtain rfl : file = file' := Option.some.inj (hfile.symm.trans hfile')
  have hlongest : longest (s.write file line).written = max line.length (longest s.written) := rfl
  refine ⟨hlast, hnames, hnodup, ?_, ?_, ?_⟩
  · exact List.forall_mem_cons.mpr ⟨hname, hlines⟩
  · intro name
    have hold := hbound name
    have hfull := hroom file hfile
    rw [hlongest]
    change bytesTo name ((file.name, line) :: s.written) ≤ _
    rw [bytesTo_cons]
    -- the line goes beyond the roll size only if it goes to the current file
    by_cases hsame : file.name = name
    · subst hsame
      rw [if_pos rfl, ← hcount]
      omega
    · rw [if_neg hsame]
      omega
  · refine ⟨{ file with file := file.file.appendWhole line }, rfl, hname, ?_⟩
    change file.file.writtenBytes + line.length = bytesTo file.name ((file.name, line) :: s.written)
    rw [bytesTo_cons, if_pos rfl, hcount, Nat.add_comm]

/-! ## Rolls -/

theorem floorSeconds_mono {a b : Int} (h : a ≤ b) : floorSeconds a ≤ floorSeconds b :=
  Int.ediv_le_ediv (by decide) h

/-- Since the clock has advanced, a roll succeeds. -/
theorem rollFile_succeeds (hclock : ∀ j k, j < k → clock j < clock k) (hs : Tidy c clock s) :
    clock (s.readings + 1) > s.lastRoll := by
  obtain ⟨j, hj, hlast⟩ := hs.lastRoll
  rw [hlast]
  exact hclock j _ (by omega)

theorem Tidy.roll (hclock : ∀ j k, j < k → clock j < clock k) (hs : Tidy c clock s)
    (hstamps : StampsApart c clock (s.readings + 2))
    (hapart : floorSeconds (clock (s.readings + 1)) ≠ floorSeconds s.lastRoll) :
    Tidy c clock (rollFile c clock s).2 ∧ HasRoom c (rollFile c clock s).2 := by
  have hlater := rollFile_succeeds hclock hs
  have hsecond : floorSeconds s.lastRoll < floorSeconds (clock (s.readings + 1)) := by
    have := floorSeconds_mono (Int.le_of_lt hlater)
    omega
  have hnew : c.fileName (floorSeconds (clock (s.readings + 1))) ∉ s.rolled := by
    intro hmem
    obtain ⟨j, hj, hname, hle⟩ := hs.rolled _ hmem
    have hequal := hstamps _ (Nat.lt_succ_self _) j (by omega) (LogFileConfig.stamp_of_fileName hname)
    have := floorSeconds_mono hle
    omega
  simp only [rollFile, if_pos hlater]
  refine ⟨⟨⟨s.readings + 1, Nat.lt_succ_self _, rfl⟩, ?_, ?_, ?_, hs.bound, ?_⟩, ?_⟩
  · refine List.forall_mem_cons.mpr ⟨⟨s.readings + 1, Nat.lt_succ_self _, rfl, Int.le_refl _⟩, ?_⟩
    intro name hname
    obtain ⟨j, hj, hrest, hle⟩ := hs.rolled name hname
    exact ⟨j, Nat.lt_succ_of_lt (Nat.lt_succ_of_lt hj), hrest, Int.le_trans hle (Int.le_of_lt hlater)⟩
  · exact List.nodup_cons.mpr ⟨hnew, hs.nodup⟩
  · intro x hx
    exact List.mem_cons_of_mem _ (hs.written x hx)
  · refine ⟨_, rfl, List.mem_cons_self, (bytesTo_eq_zero ?_).symm⟩
    intro x hx hname
    have hmem := hs.written x hx
    rw [hname] at hmem
    exact hnew hmem
  · intro file hfile
    cases hfile
    exact Nat.zero_le _

/-! ## Runs -/

/-- A call writes at most one line to the current file, and rolls after it, for sure if the file is full. -/
inductive Effect (c : LogFileConfig) (clock : Nat → Int) (s t : LogFile) : Prop where
  | same (h : Same s t)
  | rolls (mid : LogFile) (h : Same s mid) (ht : t = (rollFile c clock mid).2)
  | writes (file : OpenLog) (line : Bytes) (hfile : s.file = some file) (h : Same (s.write file line) t)
      (hroom : file.file.writtenBytes + line.length ≤ c.rollSize)
  | writesRolls (file : OpenLog) (line : Bytes) (mid : LogFile) (hfile : s.file = some file)
      (h : Same (s.write file line) mid) (ht : t = (rollFile c clock mid).2)

theorem effect_of_step {e : Event} (h : s.step c clock e = some t) : Effect c clock s t := by
  cases e with
  | append line =>
    simp only [step, appendUnlocked] at h
    split at h
    · cases h
    · rename_i file hfile
      split at h
      · cases h
        exact .writesRolls file line _ hfile ⟨rfl, rfl, Nat.le_refl _, rfl, rfl⟩ rfl
      · rename_i hroom
        have hroom := Nat.le_of_not_lt hroom
        split at h
        · cases h
          unfold checkPeriod
          simp only
          split
          · exact .writesRolls file line { s.write file line with count := 0, readings := s.readings + 1 } hfile
              ⟨rfl, rfl, Nat.le_succ _, rfl, rfl⟩ rfl
          · split
            · exact .writes file line hfile ⟨rfl, rfl, Nat.le_succ _, rfl, rfl⟩ hroom
            · exact .writes file line hfile ⟨rfl, rfl, Nat.le_succ _, rfl, rfl⟩ hroom
        · cases h
          exact .writes file line hfile ⟨rfl, rfl, Nat.le_refl _, rfl, rfl⟩ hroom
  | flush =>
    obtain ⟨file, -, rfl⟩ := Option.map_eq_some_iff.mp h
    exact .same ⟨rfl, rfl, Nat.le_refl _, rfl, rfl⟩
  | rollFile =>
    cases h
    exact .rolls s ⟨rfl, rfl, Nat.le_refl _, rfl, rfl⟩ rfl

theorem StampsApart.mono {m n : Nat} (h : StampsApart c clock n) (hle : m ≤ n) : StampsApart c clock m :=
  fun j hj k hk => h j (Nat.lt_of_lt_of_le hj hle) k (Nat.lt_of_lt_of_le hk hle)

theorem readings_rollFile (s : LogFile) : (rollFile c clock s).2.readings = s.readings + 2 := by
  unfold rollFile
  simp only
  split <;> rfl

theorem readings_of_effect (h : Effect c clock s t) : s.readings ≤ t.readings := by
  cases h with
  | same h => exact h.readings
  | rolls mid h ht =>
    have := h.readings
    rw [ht, readings_rollFile]
    omega
  | writes file line hfile h hroom => exact h.readings
  | writesRolls file line mid hfile h ht =>
    have hle : s.readings ≤ mid.readings := h.readings
    rw [ht, readings_rollFile]
    omega

/-- A roll in another second, from a state with the same rolls behind it. -/
theorem Tidy.rolls {mid : LogFile} (hclock : ∀ j k, j < k → clock j < clock k) (hmid : Tidy c clock mid)
    (hlast : mid.lastRoll = s.lastRoll) (hrolled : mid.rolled = s.rolled) (ht : t = (rollFile c clock mid).2)
    (hstamps : StampsApart c clock t.readings)
    (hapart : t.rolled.length = s.rolled.length ∨ floorSeconds t.lastRoll ≠ floorSeconds s.lastRoll) :
    Tidy c clock t ∧ HasRoom c t := by
  subst ht
  rw [readings_rollFile] at hstamps
  refine Tidy.roll hclock hmid hstamps ?_
  have hlater := rollFile_succeeds hclock hmid
  simp only [rollFile, if_pos hlater] at hapart
  rcases hapart with hlength | hapart
  · rw [List.length_cons, hrolled] at hlength
    omega
  · rw [hlast]
    exact hapart

theorem Tidy.step {e : Event} (hclock : ∀ j k, j < k → clock j < clock k) (hs : Tidy c clock s) (hroom : HasRoom c s)
    (hapart : RollsApart c clock s e) (h : s.step c clock e = some t) (hstamps : StampsApart c clock t.readings) :
    Tidy c clock t ∧ HasRoom c t := by
  have hapart := hapart t h
  cases effect_of_step h with
  | same h => exact ⟨hs.same h, hroom.same h⟩
  | rolls mid h ht => exact (hs.same h).rolls hclock h.lastRoll h.rolled ht hstamps hapart
  | writes file line hfile h hsmall =>
    have hwrite := hs.write hroom hfile line
    refine ⟨hwrite.same h, HasRoom.same ?_ h⟩
    intro file' hfile'
    cases hfile'
    exact hsmall
  | writesRolls file line mid hfile h ht =>
    exact ((hs.write hroom hfile line).same h).rolls hclock h.lastRoll h.rolled ht hstamps hapart

theorem tidy_new (hfirst : 0 < clock 1) :
    Tidy c clock (new c clock) ∧ HasRoom c (new c clock) := by
  have hlater : clock (({} : LogFile).readings + 1) > ({} : LogFile).lastRoll := hfirst
  simp only [new, rollFile, if_pos hlater]
  refine ⟨⟨⟨1, Nat.lt_succ_self 1, rfl⟩, ?_, ?_, ?_, ?_, ?_⟩, ?_⟩
  · intro name hname
    rw [List.mem_singleton.mp hname]
    exact ⟨1, Nat.lt_succ_self 1, rfl, Int.le_refl _⟩
  · exact List.pairwise_singleton _ _
  · intro x hx
    cases hx
  · intro name
    exact Nat.zero_le _
  · exact ⟨_, rfl, List.mem_singleton_self _, rfl⟩
  · intro file hfile
    cases hfile
    exact Nat.zero_le _

/-- If the clock is past the epoch, and every roll falls into another second than the one before, then no file name gets
more than the roll size and one line, and no name is rolled to twice. -/
theorem roll_size_respected {es : List Event} (hclock : ∀ j k, j < k → clock j < clock k) (hfirst : 0 < clock 1)
    (hrun : (system c clock).Run (RollsApart c clock) (new c clock) es s) (hstamps : StampsApart c clock s.readings) :
    (∀ name, bytesTo name s.written ≤ c.rollSize + longest s.written) ∧ s.rolled.Nodup := by
  have hs : Tidy c clock s ∧ HasRoom c s := by
    refine hrun.invariant (I := fun s => StampsApart c clock s.readings → Tidy c clock s ∧ HasRoom c s) ?_ ?_ hstamps
    · intro s t e hs hapart hstep hstamps
      obtain ⟨htidy, hroom⟩ := hs (hstamps.mono (readings_of_effect (effect_of_step hstep)))
      exact htidy.step hclock hroom hapart hstep hstamps
    · exact fun _ => tidy_new hfirst
  exact ⟨hs.1.bound, hs.1.nodup⟩

/-- Log files of a process in the minute from 22:13 on the 14th of November 2023, with a roll after every line. -/
def eachLine : LogFileConfig where
  basename := "log"
  rollSize := 0
  stamp second := ".20231114-2213" ++ toString (second - 1699999980) ++ "."
  hostname := "host"
  pid := 7

/-- The clock is read once in a second. -/
def everySecond (k : Nat) : Int := (1700000000 + k) * nanosPerSecond

theorem everySecond_mono (j k : Nat) (h : j < k) : everySecond j < everySecond k := by
  simp only [everySecond, nanosPerSecond]
  omega

def threeLines : List Event := [.append [1, 2], .append [3, 4], .append [5, 6]]

theorem eachLine_respected :
    ∃ s, (system eachLine everySecond).Run (RollsApart eachLine everySecond) (new eachLine everySecond) threeLines s ∧
      StampsApart eachLine everySecond s.readings ∧ s.rolled.length = 4 ∧
      (∀ name, bytesTo name s.written ≤ 0 + 2) ∧ s.rolled.Nodup := by
  refine Stepper.Run.replay rfl ?_
  intro hrun
  have hstamps : StampsApart eachLine everySecond 8 := by decide +kernel
  have hbound := roll_size_respected everySecond_mono (by decide) hrun hstamps
  exact ⟨hstamps, rfl, hbound.1, hbound.2⟩

/-- All readings are in one second. -/
def oneSecond (k : Nat) : Int := 1700000000 * nanosPerSecond + k

theorem name_rolled_twice :
    (∀ j k, j < k → oneSecond j < oneSecond k) ∧
      ∃ s, (system eachLine oneSecond).Run (fun _ _ => True) (new eachLine oneSecond) threeLines s ∧
        bytesTo "log.20231114-221320.host.7.log" s.written = 6 ∧ eachLine.rollSize + longest s.written = 2 ∧
        ¬ s.rolled.Nodup := by
  refine ⟨?_, ?_⟩
  · intro j k h
    simp only [oneSecond]
    omega
  · refine Stepper.Run.replay rfl ?_
    intro _
    exact ⟨by decide +kernel, by decide +kernel, by decide +kernel⟩

end LogFile
end Muduo
