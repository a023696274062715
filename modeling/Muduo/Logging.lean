import Muduo.Lib.Cache
import Muduo.Lib.Stepper
import Muduo.LogStream

/-! # Log records

A `Logger` writes the head of a record when it is constructed and passes the record on when it is destroyed. Loggers
are temporaries: they are destroyed at the end of the full expression that makes them, and a reference to the stream
of one does not make it live longer. The model is of one thread; the clock, `TimeZone`, `strerror_r` and `std::format`
are parameters. -/

namespace Muduo
open Lib

inductive LogLevel where
  | trace
  | debug
  | info
  | warn
  | error
  | fatal
  deriving DecidableEq

def LogLevel.toNat : LogLevel → Nat
  | .trace => 0
  | .debug => 1
  | .info => 2
  | .warn => 3
  | .error => 4
  | .fatal => 5

instance : LE LogLevel := ⟨fun a b => a.toNat ≤ b.toNat⟩

instance (a b : LogLevel) : Decidable (a ≤ b) := inferInstanceAs (Decidable (a.toNat ≤ b.toNat))

def kLogLevelName : LogLevel → List Char
  | .trace => "TRACE ".toList
  | .debug => "DEBUG ".toList
  | .info => "INFO  ".toList
  | .warn => "WARN  ".toList
  | .error => "ERROR ".toList
  | .fatal => "FATAL ".toList

/-- What `TimeZone` makes of a second; the fields other than the year have two digits. -/
structure DateTime where
  year : Int
  month : Nat
  day : Nat
  hour : Nat
  minute : Nat
  second : Nat
  two_digits : month < 100 ∧ day < 100 ∧ hour < 100 ∧ minute < 100 ∧ second < 100 := by decide

/-- `kDigitPairs.at(value)` -/
def write2Digits (value : Nat) : List Char := [Char.ofNat ('0'.toNat + value / 10), Char.ofNat ('0'.toNat + value % 10)]

def write4Digits (value : Int) : List Char :=
  let value := if value < 0 then 0 else if 9999 < value then 9999 else value.toNat
  write2Digits (value / 100) ++ write2Digits (value % 100)

/-- The 17 characters of `t_time`. -/
def DateTime.text (dt : DateTime) : List Char :=
  write4Digits dt.year ++ write2Digits dt.month ++ write2Digits dt.day ++ [' '] ++ write2Digits dt.hour ++ [':'] ++
    write2Digits dt.minute ++ [':'] ++ write2Digits dt.second

/-- A `const char *` into the name of a source file, or to the text `unknown`. -/
inductive FileName where
  | unknown
  | inside (file offset : Nat)
  deriving DecidableEq

/-- What is not part of the logging code. -/
structure LogEnv (Zone Arg : Type) where
  /-- The names that `std::source_location` gives. -/
  fileName : Nat → List Char
  toUtcTime : Nat → DateTime
  toLocalTime : Zone → Nat → DateTime
  strerror : Int → List Char
  /-- `CurrentThread::tidString()` -/
  tidString : List Char
  /-- `std::format` -/
  render : List Char → List Arg → List Char

structure SourceLocation where
  file : Nat
  line : Nat
  deriving DecidableEq

namespace LogEnv
variable {Zone Arg : Type} (env : LogEnv Zone Arg)

def chars : FileName → List Char
  | .unknown => "unknown".toList
  | .inside file offset => (env.fileName file).drop offset

/-- Behind the last slash, by `std::strrchr`. -/
def basenameOf (file : FileName) : FileName :=
  match file, (env.chars file).reverse.findIdx? (· = '/') with
  | .inside id offset, some behind => .inside id (offset + ((env.chars file).length - behind))
  | file, _ => file

/-- The second in the time zone that is set, or in UTC. -/
def dateTime (timeZone : Option Zone) (seconds : Nat) : DateTime :=
  match timeZone with
  | some zone => env.toLocalTime zone seconds
  | none => env.toUtcTime seconds

end LogEnv

/-- `cachedBasename`; the key and the value of the cache are null at first. -/
def cachedBasename {Zone Arg : Type} (env : LogEnv Zone Arg) (file : Option FileName)
    (cache : Cache (Option FileName) (Option FileName)) : FileName × Cache (Option FileName) (Option FileName) :=
  match file with
  | none => (.unknown, cache)
  | some file =>
    match if cache.key = some file then cache.value else none with
    | some basename => (basename, cache)
    | none => (env.basenameOf file, ⟨some file, some (env.basenameOf file)⟩)

/-- `Logger::Impl` -/
structure LoggerImpl where
  stream : LogStream
  level : LogLevel
  line : Nat
  basename : FileName

/-- The logging of one thread with the settings of all. -/
structure LogThread (Zone : Type) where
  logLevel : LogLevel := .info
  /-- `g_logTimeZone`, if it is valid. -/
  timeZone : Option Zone := none
  /-- `t_lastSecond` and the text of `t_time`. -/
  time : Cache Nat (List Char) := ⟨0, List.replicate 17 (Char.ofNat 0)⟩
  basename : Cache (Option FileName) (Option FileName) := ⟨none, none⟩
  /-- The cache of `finish`. -/
  suffix : Cache (Option FileName × Nat) (List Char) := ⟨(none, 0), []⟩
  /-- The loggers in the order of their construction; none where one has been destroyed. -/
  loggers : List (Option LoggerImpl) := []
  /-- The loggers to be destroyed at the end of the full expression, newest first. -/
  temporaries : List Nat := []
  /-- What was passed to the output function. -/
  records : List (List Char) := []
  flushes : Nat := 0
  aborted : Bool := false
  /-- Uses of a stream whose logger had been destroyed. -/
  dangling : Nat := 0
  /-- The time zone when the last record was begun. -/
  zoneThen : Option (Option Zone) := none

namespace LogThread
variable {Zone Arg : Type} (env : LogEnv Zone Arg)

/-! ## The head of a record -/

/-- `.uuuuuu` -/
def usText (now : Nat) : List Char :=
  let us := now % 1000000
  '.' :: write2Digits (us / 10000) ++ write2Digits (us / 100 % 100) ++ write2Digits (us % 100)

def zoneText (timeZone : Option Zone) : List Char := if timeZone.isSome then [' '] else ['Z', ' ']

/-- What the constructor of `Impl` puts into its stream, in this order; `time` is the text of `t_time`. -/
def header (time : List Char) (now : Nat) (timeZone : Option Zone) (level : LogLevel) (savedErrno : Int)
    (func : List Char) : List LogStream.Insertion :=
  [.stringView time, .stringView (usText now ++ zoneText timeZone), .stringView env.tidString,
    .cString (some (kLogLevelName level))] ++
  (if func = [] then [] else [.stringView func, .char ' ']) ++
  (if savedErrno = 0 then []
  else
    [.cString (some (env.strerror savedErrno)), .cString (some " (errno=".toList), .integer savedErrno,
      .cString (some ") ".toList)])

/-- `Logger::Impl::Impl`; `now` is in microseconds. The basename is looked up twice. -/
def makeImpl (now : Nat) (level : LogLevel) (savedErrno : Int) (func : List Char) (loc : SourceLocation)
    (s : LogThread Zone) : LoggerImpl × LogThread Zone :=
  let (basename, cache) := cachedBasename env (some (.inside loc.file 0)) s.basename
  let (basename, cache) := cachedBasename env (some basename) cache
  let time := s.time.fetch (fun seconds => (env.dateTime s.timeZone seconds).text) (now / 1000000)
  let stream := (header env time.value now s.timeZone level savedErrno func).foldl LogStream.insert {}
  (⟨stream, level, loc.line, basename⟩, { s with basename := cache, time, zoneThen := some s.timeZone })

/-- `Logger(level, savedErrno, func, loc)` is made as a temporary. -/
def construct (now : Nat) (level : LogLevel) (savedErrno : Int) (func : List Char) (loc : SourceLocation)
    (s : LogThread Zone) : LogThread Zone :=
  let (impl, s) := s.makeImpl env now level savedErrno func loc
  { s with loggers := s.loggers ++ [some impl], temporaries := s.loggers.length :: s.temporaries }

/-! ## The end of a record -/

def suffixSize : Nat := 256

/-- `appendRaw`, and `appendChar` with one character. -/
def appendRaw (suffix data : List Char) : List Char := suffix ++ data.take (suffixSize - suffix.length)

/-- `std::to_chars` with the line, or a question mark. -/
def appendLine (suffix : List Char) (line : Nat) : List Char :=
  let digits := (toString line).toList
  if suffix.length < suffixSize then
    if digits.length ≤ suffixSize - suffix.length then suffix ++ digits else appendRaw suffix ['?']
  else appendRaw suffix ['?']

/-- What `finish` puts into its cache. -/
def suffixOf (key : Option FileName × Nat) : List Char :=
  let basename := match key.1 with
    | some basename => env.chars basename
    | none => "unknown".toList
  let suffix := appendRaw (appendRaw (appendRaw [] " - ".toList) basename) [':']
  appendRaw (appendLine suffix key.2) ['\n']

/-- `Logger::~Logger`, which calls `Impl::finish`. -/
def destroy (s : LogThread Zone) (ref : Nat) : LogThread Zone :=
  match s.loggers[ref]? with
  | some (some impl) =>
    let suffix := s.suffix.fetch (suffixOf env) (some impl.basename, impl.line)
    let record := (impl.stream.append suffix.value).data
    let s := { s with suffix, loggers := s.loggers.set ref none, records := s.records ++ [record] }
    if impl.level = .fatal then { s with flushes := s.flushes + 1, aborted := true } else s
  | _ => s

def endFullExpression (s : LogThread Zone) : LogThread Zone :=
  s.temporaries.foldl (destroy env) { s with temporaries := [] }

/-- Something is done to the stream that a reference refers to, unless the process has ended. -/
def onStream (ref : Nat) (f : LogStream → LogStream) (s : LogThread Zone) : LogThread Zone :=
  if s.aborted then s
  else
    match s.loggers[ref]? with
    | some (some impl) => { s with loggers := s.loggers.set ref (some { impl with stream := f impl.stream }) }
    | _ => { s with dangling := s.dangling + 1 }

/-! ## The functions that log -/

/-- `logFmtErr`. The reference outlives the declaration that it is initialised in, the logger does not. -/
def logFmtErr (now : Nat) (level : LogLevel) (savedErrno : Int) (loc : SourceLocation) (fmt : List Char)
    (args : List Arg) (s : LogThread Zone) : LogThread Zone :=
  if s.logLevel ≤ level then
    -- auto &s = Logger(level, savedErrno, {}, loc).stream();
    let stream := s.loggers.length
    let s := (s.construct env now level savedErrno [] loc).endFullExpression env
    s.onStream stream fun stream => if args.isEmpty then stream.append fmt else stream.format (env.render fmt args)
  else s

def logFmt (now : Nat) (level : LogLevel) (loc : SourceLocation) (fmt : List Char) (args : List Arg)
    (s : LogThread Zone) : LogThread Zone :=
  s.logFmtErr env now level 0 loc fmt args

/-- `Logger(level, savedErrno, func, loc).stream() << … << …;` -/
def loggerStream (now : Nat) (level : LogLevel) (savedErrno : Int) (func : List Char) (loc : SourceLocation)
    (values : List LogStream.Insertion) (s : LogThread Zone) : LogThread Zone :=
  let stream := s.loggers.length
  let s := s.construct env now level savedErrno func loc
  (values.foldl (fun s value => s.onStream stream (·.insert value)) s).endFullExpression env

def shouldLog (s : LogThread Zone) (level : LogLevel) : Bool := .warn ≤ level ∨ s.logLevel ≤ level

/-- `LogLine(level, savedErrno, func, loc) << … << …;`. The line is a temporary of the statement and the logger a part
of it. -/
def logLine (now : Nat) (level : LogLevel) (savedErrno : Int) (func : List Char) (loc : SourceLocation)
    (values : List LogStream.Insertion) (s : LogThread Zone) : LogThread Zone :=
  if s.shouldLog level then s.loggerStream env now level savedErrno func loc values else s

end LogThread

/-- The functions that take a format; the others of their names return a `LogLine`. -/
inductive FormatCall where
  | logFmt (level : LogLevel)
  | logTrace
  | logDebug
  | logInfo
  | logWarn
  | logError
  | logFatal

namespace FormatCall

def level : FormatCall → LogLevel
  | .logFmt level => level
  | .logTrace => .trace
  | .logDebug => .debug
  | .logInfo => .info
  | .logWarn => .warn
  | .logError => .error
  | .logFatal => .fatal

/-- `logTrace`, `logDebug` and `logInfo` test the level before `logFmt` does. -/
def testsLevel : FormatCall → Bool
  | .logTrace | .logDebug | .logInfo => true
  | _ => false

variable {Zone Arg : Type} (env : LogEnv Zone Arg)

def perform (call : FormatCall) (now : Nat) (loc : SourceLocation) (fmt : List Char) (args : List Arg)
    (s : LogThread Zone) : LogThread Zone :=
  if call.testsLevel ∧ ¬s.logLevel ≤ call.level then s else s.logFmt env now call.level loc fmt args

end FormatCall

namespace LogThread
variable {Zone Arg : Type} (env : LogEnv Zone Arg)

inductive Event (Zone Arg : Type) where
  | format (now : Nat) (call : FormatCall) (loc : SourceLocation) (fmt : List Char) (args : List Arg)
  /-- `logSysErr` and `logSysFatal` with a format. -/
  | formatErr (now : Nat) (level : LogLevel) (savedErrno : Int) (loc : SourceLocation) (fmt : List Char)
      (args : List Arg)
  | line (now : Nat) (level : LogLevel) (savedErrno : Int) (func : List Char) (loc : SourceLocation)
      (values : List LogStream.Insertion)
  | logger (now : Nat) (level : LogLevel) (savedErrno : Int) (func : List Char) (loc : SourceLocation)
      (values : List LogStream.Insertion)
  | setLogLevel (level : LogLevel)
  /-- With a time zone, or with one that is not valid. -/
  | setTimeZone (timeZone : Option Zone)

def perform (s : LogThread Zone) : Event Zone Arg → LogThread Zone
  | .format now call loc fmt args => call.perform env now loc fmt args s
  | .formatErr now level savedErrno loc fmt args => s.logFmtErr env now level savedErrno loc fmt args
  | .line now level savedErrno func loc values => s.logLine env now level savedErrno func loc values
  | .logger now level savedErrno func loc values => s.loggerStream env now level savedErrno func loc values
  | .setLogLevel level => { s with logLevel := level }
  | .setTimeZone timeZone => { s with timeZone }

def system : Stepper (LogThread Zone) (Event Zone Arg) :=
  ⟨fun s e => if s.aborted then none else some (s.perform env e)⟩

end LogThread
end Muduo
