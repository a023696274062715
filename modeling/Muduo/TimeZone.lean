import Muduo.Chrono
import Muduo.Lib.Timeline

/-! # Time zones

`TimeZone` converts between seconds since the epoch and local time, by a fixed offset or by a zone of the standard
library. Such a zone is a list of transitions; which of the offsets belong to a local time is what `get_info` tells. -/

namespace Muduo
open Lib

/-! ## Zones of the standard library -/

/-- `std::chrono::sys_info`, as far as it is read. -/
abbrev SysInfo : Type := Stretch Int

/-- `std::chrono::time_zone`: the transitions are in order, and no local time is in the windows of two of them. -/
structure ChronoZone extends Timeline Int where
  apart : (windows offset shifts).Pairwise Window.Apart

inductive LocalResult where
  | unique
  | nonexistent
  | ambiguous
  deriving DecidableEq

/-- `std::chrono::local_info` -/
structure LocalInfo where
  result : LocalResult
  first : SysInfo
  second : SysInfo

namespace ChronoZone

/-- `get_info` of a moment. -/
def sysInfo (z : ChronoZone) (t : Int) : SysInfo := z.stretchAt t

/-- What `second` holds for a unique time. -/
def noInfo : SysInfo := ⟨none, none, 0⟩

/-- `get_info` of a local time. If it is shown twice, `first` is the earlier of the two; if it is skipped, `first` ends
just before it and `second` begins just after it. -/
def localInfo (z : ChronoZone) (l : Int) : LocalInfo :=
  match z.showing l with
  | [x] => ⟨.unique, x, noInfo⟩
  | x :: y :: _ => ⟨.ambiguous, x, y⟩
  | [] =>
    match (neighbours z.stretches).find? fun p => p.1.Skips p.2 l with
    | some (x, y) => ⟨.nonexistent, x, y⟩
    | none => ⟨.nonexistent, noInfo, noInfo⟩

end ChronoZone

/-- `TimeZone::Data` -/
inductive TimeZoneData where
  | fixed (eastOfUtc : Int)
  | zone (z : ChronoZone)

structure TimeZone where
  data : Option TimeZoneData

namespace TimeZone

structure DateTime where
  year : Int
  month : Int
  day : Int
  hour : Int
  minute : Int
  second : Int
  deriving DecidableEq

/-- `TimeZone(eastOfUtc, tzname)` -/
def ofOffset (eastOfUtc : Int) : TimeZone := ⟨some (.fixed eastOfUtc)⟩

def valid (tz : TimeZone) : Bool := tz.data.isSome

def breakTime (t : Int) : DateTime :=
  let dayPoint := t / 86400
  let ymd := ChronoDate.ofSysDays dayPoint
  let sinceMidnight := t - dayPoint * 86400
  ⟨ymd.year, ymd.month, ymd.day, sinceMidnight / 3600, sinceMidnight % 3600 / 60, sinceMidnight % 60⟩

def toUtcTime (secondsSinceEpoch : Int) : DateTime := breakTime secondsSinceEpoch

/-- `month{…}` and `day{…}` hold 8 bits of the `unsigned`. -/
def chronoField (value : Int) : Nat := (value % 256).toNat

/-- `unspecified` is what `sys_days` makes of a year or month that there is not. -/
def fromUtcTime (unspecified : ChronoDate → Int) (dt : DateTime) : Int :=
  let ymd : ChronoDate := ⟨chronoYear dt.year, chronoField dt.month, chronoField dt.day⟩
  let days := if h : ymd.MonthOk then ymd.sysDays h else unspecified ymd
  days * 86400 + dt.hour * 3600 + dt.minute * 60 + dt.second

/-- The `default` of the `switch` has no case here. -/
def pickInfoNoThrow (info : LocalInfo) (postTransition : Bool) : SysInfo :=
  match info.result with
  | .unique => info.first
  | .nonexistent => if postTransition then info.first else info.second
  | .ambiguous => if postTransition then info.second else info.first

/-- The date and time, and what `utcOffset` gets. -/
def tryToLocalTime (tz : TimeZone) (secondsSinceEpoch : Int) : Option (DateTime × Int) :=
  match tz.data with
  | none => none
  | some (.fixed eastOfUtc) => some (breakTime (secondsSinceEpoch + eastOfUtc), eastOfUtc)
  | some (.zone z) =>
    let info := z.sysInfo secondsSinceEpoch
    some (breakTime (secondsSinceEpoch + info.offset), info.offset)

def tryFromLocalTime (unspecified : ChronoDate → Int) (tz : TimeZone) (dt : DateTime) (postTransition : Bool) :
    Option Int :=
  match tz.data with
  | none => none
  | some (.fixed eastOfUtc) => some (fromUtcTime unspecified dt - eastOfUtc)
  | some (.zone z) =>
    let localTp := fromUtcTime unspecified dt
    some (localTp - (pickInfoNoThrow (z.localInfo localTp) postTransition).offset)

/-- Throws for a time zone that is not valid. -/
def toLocalTime (tz : TimeZone) (secondsSinceEpoch : Int) : Except String (DateTime × Int) :=
  match tz.tryToLocalTime secondsSinceEpoch with
  | some result => .ok result
  | none => .error "TimeZone::toLocalTime: invalid timezone"

def fromLocalTime (unspecified : ChronoDate → Int) (tz : TimeZone) (dt : DateTime) (postTransition : Bool) :
    Except String Int :=
  match tz.tryFromLocalTime unspecified dt postTransition with
  | some result => .ok result
  | none => .error "TimeZone::fromLocalTime: invalid timezone"

end TimeZone
end Muduo
