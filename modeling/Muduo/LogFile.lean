import Muduo.AppendFile
import Muduo.Lib.Calendar
import Muduo.Lib.FixedWidth
import Muduo.Lib.Stepper

/-! # Log files

`LogFile`: lines are appended to a file, which is replaced by another when it has grown beyond the roll size or when a
day has passed. All writes succeed here. Time points are in nanoseconds since the epoch, and the clock is given as the
sequence of its readings. -/

namespace Muduo
open Lib

/-- The constants of a `LogFile`, with how `std::format` prints the second in the name of a file, and what the process
is called. -/
structure LogFileConfig where
  basename : String
  rollSize : Nat
  flushInterval : Int := 3
  checkEveryN : Int := 1024
  stamp : Int → String
  hostname : String
  pid : Nat

structure OpenLog where
  name : String
  file : AppendFile := {}

structure LogFile where
  count : Nat := 0
  startOfPeriod : Int := 0
  lastRoll : Int := 0
  lastFlush : Int := 0
  file : Option OpenLog := none
  /-- How often the clock was read. -/
  readings : Nat := 0
  /-- The lines with the files they were written to, newest first. -/
  written : List (String × Bytes) := []
  /-- The names of the files that were rolled to, newest first. -/
  rolled : List String := []

namespace LogFile

def nanosPerSecond : Int := 1000000000

def nanosPerDay : Int := 24 * 60 * 60 * nanosPerSecond

def floorSeconds (time : Int) : Int := time / nanosPerSecond

/-- The start of the day. -/
def floorDays (time : Int) : Int := time / nanosPerDay * nanosPerDay

end LogFile

/-- How `std::format` prints a second for `{:%Y%m%d-%H%M%S}` between dots, from the year 0 to 9999. -/
def LogFileConfig.utcStamp (second : Int) : String :=
  let date := CivilDate.ofDays (second / 86400)
  let time := (second % 86400).toNat
  String.ofList (['.'] ++ (digits 4 date.year.toNat ++ digits 2 date.month ++ digits 2 date.day) ++ ['-'] ++
    (digits 2 (time / 3600) ++ digits 2 (time % 3600 / 60) ++ digits 2 (time % 60)) ++ ['.'])

/-- The name for a second. -/
def LogFileConfig.fileName (c : LogFileConfig) (second : Int) : String :=
  c.basename ++ c.stamp second ++ c.hostname ++ "." ++ toString c.pid ++ ".log"

namespace LogFile
variable (c : LogFileConfig) (clock : Nat → Int)

/-- The clock is read here and again in `getLogFileName`, which overwrites `now`. -/
def rollFile (s : LogFile) : Bool × LogFile :=
  let now := clock (s.readings + 1)
  let filename := c.fileName (floorSeconds now)
  let s := { s with readings := s.readings + 2 }
  if now > s.lastRoll then
    (true, { s with
      lastRoll := now
      lastFlush := now
      startOfPeriod := floorDays now
      file := some { name := filename }
      rolled := filename :: s.rolled })
  else (false, s)

/-- The constructor. -/
def new : LogFile := (rollFile c clock {}).2

/-- The line goes into the file. -/
def write (file : OpenLog) (line : Bytes) (s : LogFile) : LogFile :=
  { s with
    file := some { file with file := file.file.appendWhole line }
    written := (file.name, line) :: s.written }

/-- The check after every so many lines. -/
def checkPeriod (s : LogFile) : LogFile :=
  let now := clock s.readings
  let s := { s with count := 0, readings := s.readings + 1 }
  if floorDays now ≠ s.startOfPeriod then (rollFile c clock s).2
  else if now - s.lastFlush > c.flushInterval * nanosPerSecond then { s with lastFlush := now }
  else s

/-- None is where a null pointer would be dereferenced. -/
def appendUnlocked (line : Bytes) (s : LogFile) : Option LogFile :=
  match s.file with
  | none => none
  | some file =>
    let s := s.write file line
    if file.file.writtenBytes + line.length > c.rollSize then some (rollFile c clock s).2
    else if (s.count + 1 : Int) ≥ c.checkEveryN then some (checkPeriod c clock s)
    else some { s with count := s.count + 1 }

inductive Event where
  | append (line : Bytes)
  | flush
  | rollFile

def step (s : LogFile) : Event → Option LogFile
  | .append line => appendUnlocked c clock line s
  -- `AppendFile::flush` does nothing.
  | .flush => s.file.map fun _ => s
  | .rollFile => some (rollFile c clock s).2

def system : Stepper LogFile Event := ⟨step c clock⟩

end LogFile
end Muduo
