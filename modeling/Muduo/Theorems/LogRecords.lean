import Muduo.Logging
import Muduo.Theorems.LogStream

/-! # What a record holds

A statement that logs makes one logger and passes one record on: what was in the stream when the full expression
ended, and the suffix. The statement `LogLine(…) << …` writes its values before that, the functions that take a format
write theirs after it, to a stream that is gone. -/

namespace Muduo
open Lib

namespace LogThread
variable {Zone Arg : Type} {env : LogEnv Zone Arg} {s t : LogThread Zone} {impl : LoggerImpl} {ref now : Nat}
  {level : LogLevel} {savedErrno : Int} {func : List Char} {loc : SourceLocation}

/-! ## The logger of a statement -/

/-- A logger is under construction: it is the only temporary and is still there. -/
structure Writing (s : LogThread Zone) (ref : Nat) (impl : LoggerImpl) : Prop where
  running : s.aborted = false
  temporaries : s.temporaries = [ref]
  alive : s.loggers[ref]? = some (some impl)

theorem writing_construct (env : LogEnv Zone Arg) (now : Nat) (level : LogLevel) (savedErrno : Int) (func : List Char)
    (loc : SourceLocation) (hrunning : s.aborted = false) (hidle : s.temporaries = []) :
    Writing (s.construct env now level savedErrno func loc) s.loggers.length
      (s.makeImpl env now level savedErrno func loc).1 where
  running := hrunning
  temporaries := congrArg (s.loggers.length :: ·) hidle
  alive := List.getElem?_concat_length

theorem Writing.onStream (h : Writing s ref impl) (f : LogStream → LogStream) :
    s.onStream ref f = { s with loggers := s.loggers.set ref (some { impl with stream := f impl.stream }) } := by
  rw [LogThread.onStream, h.running, h.alive]
  rfl

theorem Writing.set (h : Writing s ref impl) (impl' : LoggerImpl) :
    Writing { s with loggers := s.loggers.set ref (some impl') } ref impl' where
  running := h.running
  temporaries := h.temporaries
  alive := by
    obtain ⟨hlt, -⟩ := List.getElem?_eq_some_iff.mp h.alive
    exact List.getElem?_set_self hlt

/-- Values that are inserted while the logger is there end up in its stream, and nothing else changes. -/
theorem Writing.insertAll (h : Writing s ref impl) (values : List LogStream.Insertion) :
    ∃ loggers, values.foldl (fun s value => s.onStream ref (·.insert value)) s = { s with loggers } ∧
      Writing { s with loggers } ref { impl with stream := values.foldl LogStream.insert impl.stream } := by
  induction values generalizing s impl with
  | nil => exact ⟨s.loggers, rfl, h⟩
  | cons value values ih =>
    obtain ⟨loggers, heq, hwriting⟩ := ih (h.set { impl with stream := impl.stream.insert value })
    refine ⟨loggers, ?_, hwriting⟩
    rw [List.foldl_cons, h.onStream]
    exact heq

/-- `t` is left of `s` when the logger `impl` has passed its record on. -/
structure Recorded (env : LogEnv Zone Arg) (s : LogThread Zone) (impl : LoggerImpl) (t : LogThread Zone) : Prop where
  records : t.records =
    s.records ++ [(impl.stream.append (s.suffix.fetch (suffixOf env) (some impl.basename, impl.line)).value).data]
  suffix : t.suffix = s.suffix.fetch (suffixOf env) (some impl.basename, impl.line)
  temporaries : t.temporaries = []
  logLevel : t.logLevel = s.logLevel
  timeZone : t.timeZone = s.timeZone
  time : t.time = s.time
  zoneThen : t.zoneThen = s.zoneThen
  aborted : t.aborted = decide (impl.level = .fatal)

/-- Which loggers there were before does not matter. -/
theorem Recorded.of_loggers {loggers : List (Option LoggerImpl)} {temporaries : List Nat}
    (h : Recorded env { s with loggers, temporaries } impl t) : Recorded env s impl t :=
  ⟨h.records, h.suffix, h.temporaries, h.logLevel, h.timeZone, h.time, h.zoneThen, h.aborted⟩

theorem Recorded.dangling (h : Recorded env s impl t) (dangling : Nat) : Recorded env s impl { t with dangling } :=
  ⟨h.records, h.suffix, h.temporaries, h.logLevel, h.timeZone, h.time, h.zoneThen, h.aborted⟩

theorem Writing.destroy (env : LogEnv Zone Arg) (h : Writing s ref impl) :
    Recorded env s impl (s.endFullExpression env) ∧ (s.endFullExpression env).loggers[ref]? = some none ∧
      (s.endFullExpression env).dangling = s.dangling := by
  obtain ⟨hlt, -⟩ := List.getElem?_eq_some_iff.mp h.alive
  have hend : s.endFullExpression env = LogThread.destroy env { s with temporaries := [] } ref := by
    rw [endFullExpression, h.temporaries]
    rfl
  have hgone : (s.loggers.set ref none)[ref]? = some none := List.getElem?_set_self hlt
  rw [hend, LogThread.destroy, h.alive]
  by_cases hfatal : impl.level = .fatal
  · simp only [if_pos hfatal]
    exact ⟨⟨rfl, rfl, rfl, rfl, rfl, rfl, rfl, (decide_eq_true hfatal).symm⟩, hgone, trivial⟩
  · simp only [if_neg hfatal]
    exact ⟨⟨rfl, rfl, rfl, rfl, rfl, rfl, rfl, h.running.trans (decide_eq_false hfatal).symm⟩, hgone, trivial⟩

/-! ## The statements -/

/-- A format is written to a stream that is gone, if the process is not: the record is the header with the suffix. -/
theorem logFmtErr_recorded {fmt : List Char} {args : List Arg} (hrunning : s.aborted = false)
    (hidle : s.temporaries = []) (henabled : s.logLevel ≤ level) :
    Recorded env (s.makeImpl env now level savedErrno [] loc).2 (s.makeImpl env now level savedErrno [] loc).1
        (s.logFmtErr env now level savedErrno loc fmt args) ∧
      (s.logFmtErr env now level savedErrno loc fmt args).dangling =
        s.dangling + if level = .fatal then 0 else 1 := by
  obtain ⟨hrecorded, hgone, hdangling⟩ :=
    (writing_construct env now level savedErrno [] loc hrunning hidle).destroy env
  rw [logFmtErr, if_pos henabled]
  by_cases hfatal : level = .fatal
  · have hended : ((s.construct env now level savedErrno [] loc).endFullExpression env).aborted = true :=
      hrecorded.aborted.trans (decide_eq_true hfatal)
    simp only [onStream, if_pos hended, if_pos hfatal]
    exact ⟨hrecorded.of_loggers, hdangling⟩
  · have hgoes : ¬((s.construct env now level savedErrno [] loc).endFullExpression env).aborted = true := by
      rw [hrecorded.aborted]
      exact fun h => hfatal (of_decide_eq_true h)
    simp only [onStream, if_neg hgoes, hgone, if_neg hfatal]
    exact ⟨hrecorded.of_loggers.dangling _, congrArg (· + 1) hdangling⟩

/-- Values that are put into the stream of a logger are in its record. -/
theorem loggerStream_recorded {values : List LogStream.Insertion} (hrunning : s.aborted = false)
    (hidle : s.temporaries = []) :
    let impl := (s.makeImpl env now level savedErrno func loc).1
    Recorded env (s.makeImpl env now level savedErrno func loc).2
        { impl with stream := values.foldl LogStream.insert impl.stream }
        (s.loggerStream env now level savedErrno func loc values) ∧
      (s.loggerStream env now level savedErrno func loc values).dangling = s.dangling := by
  obtain ⟨loggers, heq, hwriting⟩ :=
    (writing_construct env now level savedErrno func loc hrunning hidle).insertAll values
  obtain ⟨hrecorded, -, hdangling⟩ := hwriting.destroy env
  rw [loggerStream]
  simp only [heq]
  exact ⟨hrecorded.of_loggers.of_loggers, hdangling⟩

theorem logLine_of_enabled {values : List LogStream.Insertion} (henabled : s.shouldLog level = true) :
    s.logLine env now level savedErrno func loc values = s.loggerStream env now level savedErrno func loc values :=
  if_pos henabled

/-! ## Runs -/

/-- The reading of the clock for the record that an event makes, if it makes one. -/
def Event.reading (logLevel : LogLevel) : Event Zone Arg → Option Nat
  | .format now call _ _ _ => if logLevel ≤ call.level then some now else none
  | .formatErr now level _ _ _ _ => if logLevel ≤ level then some now else none
  | .line now level _ _ _ _ => if .warn ≤ level ∨ logLevel ≤ level then some now else none
  | .logger now _ _ _ _ _ => some now
  | .setLogLevel _ => none
  | .setTimeZone _ => none

/-- The logger that an event makes, if it makes one, as it is when it is destroyed. -/
def Event.made (env : LogEnv Zone Arg) (s : LogThread Zone) : Event Zone Arg → Option LoggerImpl
  | .format now call loc _ _ =>
    if s.logLevel ≤ call.level then some (s.makeImpl env now call.level 0 [] loc).1 else none
  | .formatErr now level savedErrno loc _ _ =>
    if s.logLevel ≤ level then some (s.makeImpl env now level savedErrno [] loc).1 else none
  | .line now level savedErrno func loc values =>
    let impl := (s.makeImpl env now level savedErrno func loc).1
    if s.shouldLog level then some { impl with stream := values.foldl LogStream.insert impl.stream } else none
  | .logger now level savedErrno func loc values =>
    let impl := (s.makeImpl env now level savedErrno func loc).1
    some { impl with stream := values.foldl LogStream.insert impl.stream }
  | .setLogLevel _ | .setTimeZone _ => none

def Event.settings : Event Zone Arg → LogLevel × Option Zone → LogLevel × Option Zone
  | .setLogLevel level, (_, timeZone) => (level, timeZone)
  | .setTimeZone timeZone, (logLevel, _) => (logLevel, timeZone)
  | _, settings => settings

/-- What an event can do: it makes no record and leaves all but the settings, or it makes one that begins with the
header. -/
inductive Effect (env : LogEnv Zone Arg) (s : LogThread Zone) (e : Event Zone Arg) (t : LogThread Zone) : Prop
  | settles (hmade : e.made env s = none) (hreading : e.reading s.logLevel = none)
      (heq : t = { s with
        logLevel := (e.settings (s.logLevel, s.timeZone)).1
        timeZone := (e.settings (s.logLevel, s.timeZone)).2 })
  | records {now : Nat} {level : LogLevel} {savedErrno : Int} {func : List Char} {loc : SourceLocation}
      {stream : LogStream} (hmade : e.made env s = some { (s.makeImpl env now level savedErrno func loc).1 with stream })
      (hreading : e.reading s.logLevel = some now)
      (hsettings : e.settings (s.logLevel, s.timeZone) = (s.logLevel, s.timeZone))
      (hhead : (s.makeImpl env now level savedErrno func loc).1.stream.data <+: stream.data)
      (hrecorded : Recorded env (s.makeImpl env now level savedErrno func loc).2
        { (s.makeImpl env now level savedErrno func loc).1 with stream } t)

theorem effect_logFmtErr {e : Event Zone Arg} {fmt : List Char} {args : List Arg} (hrunning : s.aborted = false)
    (hidle : s.temporaries = [])
    (hmade : e.made env s = if s.logLevel ≤ level then some (s.makeImpl env now level savedErrno [] loc).1 else none)
    (hreading : e.reading s.logLevel = if s.logLevel ≤ level then some now else none)
    (hsettings : e.settings (s.logLevel, s.timeZone) = (s.logLevel, s.timeZone)) :
    Effect env s e (s.logFmtErr env now level savedErrno loc fmt args) := by
  by_cases henabled : s.logLevel ≤ level
  · rw [if_pos henabled] at hmade hreading
    exact .records hmade hreading hsettings (List.prefix_refl _) (logFmtErr_recorded hrunning hidle henabled).1
  · rw [if_neg henabled] at hmade hreading
    refine .settles hmade hreading ?_
    rw [logFmtErr, if_neg henabled, hsettings]

theorem effect_of_perform (env : LogEnv Zone Arg) (e : Event Zone Arg) (hrunning : s.aborted = false)
    (hidle : s.temporaries = []) : Effect env s e (s.perform env e) := by
  cases e with
  | format now call loc fmt args =>
    simp only [perform, FormatCall.perform]
    split
    · rename_i hdisabled
      exact .settles (if_neg hdisabled.2) (if_neg hdisabled.2) rfl
    · exact effect_logFmtErr hrunning hidle rfl rfl rfl
  | formatErr now level savedErrno loc fmt args => exact effect_logFmtErr hrunning hidle rfl rfl rfl
  | line now level savedErrno func loc values =>
    by_cases henabled : s.shouldLog level = true
    · have hreading : (Event.line now level savedErrno func loc values : Event Zone Arg).reading s.logLevel =
          some now := if_pos (of_decide_eq_true henabled)
      rw [perform, logLine_of_enabled henabled]
      exact .records (if_pos henabled) hreading rfl (LogStream.head_foldl_insert values)
        (loggerStream_recorded hrunning hidle).1
    · refine .settles (if_neg henabled) (if_neg fun h => henabled (decide_eq_true h)) ?_
      simp only [perform, logLine, if_neg henabled]
      rfl
  | logger now level savedErrno func loc values =>
    exact .records rfl rfl rfl (LogStream.head_foldl_insert values) (loggerStream_recorded hrunning hidle).1
  | setLogLevel level => exact .settles rfl rfl rfl
  | setTimeZone timeZone => exact .settles rfl rfl rfl

/-- Between the statements there is no temporary, and the cache of `finish` is right once it is filled. -/
structure Idle (env : LogEnv Zone Arg) (s : LogThread Zone) : Prop where
  temporaries : s.temporaries = []
  suffix : ∀ basename, s.suffix.key.1 = some basename → s.suffix.value = suffixOf env s.suffix.key

theorem Idle.value_suffix (h : Idle env s) (basename : FileName) (line : Nat) :
    (s.suffix.fetch (suffixOf env) (some basename, line)).value = suffixOf env (some basename, line) := by
  refine Cache.value_fetch fun hkey => ?_
  have hvalue := h.suffix basename (congrArg Prod.fst hkey.symm)
  rwa [← hkey] at hvalue

theorem Idle.effect {e : Event Zone Arg} (h : Idle env s) (he : Effect env s e t) : Idle env t := by
  cases he with
  | settles _ _ heq =>
    subst heq
    exact ⟨h.temporaries, h.suffix⟩
  | records _ _ _ _ hrecorded =>
    refine ⟨hrecorded.temporaries, fun _ _ => ?_⟩
    rw [hrecorded.suffix, Cache.key_fetch]
    exact h.value_suffix _ _

theorem idle_new {logLevel : LogLevel} : Idle env ({ logLevel } : LogThread Zone) := by
  refine ⟨rfl, ?_⟩
  intro basename hkey
  cases hkey

/-- A step is taken while the process runs. -/
theorem perform_of_step {e : Event Zone Arg} (h : (system env).step s e = some t) :
    s.aborted = false ∧ s.perform env e = t := by
  simpa only [system, Option.ite_none_left_eq_some, Bool.not_eq_true, Option.some.injEq] using h

theorem Idle.step {e : Event Zone Arg} (h : Idle env s) (hstep : (system env).step s e = some t) :
    Idle env t ∧ Effect env s e t := by
  obtain ⟨hrunning, rfl⟩ := perform_of_step hstep
  have he := effect_of_perform env e hrunning h.temporaries
  exact ⟨h.effect he, he⟩

theorem idle_of_run {es : List (Event Zone Arg)} {logLevel : LogLevel}
    (run : (system env).Run (fun _ _ => True) { logLevel } es s) : Idle env s :=
  run.invariant (fun h _ hstep => (h.step hstep).1) idle_new

/-- The record of a statement whose text has room for the suffix. -/
theorem Recorded.whole (h : Recorded env (s.makeImpl env now level savedErrno func loc).2 impl t) (hidle : Idle env s)
    (hfits : (impl.stream.data ++ suffixOf env (some impl.basename, impl.line)).length ≤ kSmallBuffer) :
    t.records = s.records ++ [impl.stream.data ++ suffixOf env (some impl.basename, impl.line)] := by
  rw [List.length_append] at hfits
  rw [← LogStream.data_append hfits, ← hidle.value_suffix]
  exact h.records

/-- The statement `LogLine(…) << …` passes one record on, with the values between the header and the suffix. -/
theorem line_record {values : List LogStream.Insertion} (hidle : Idle env s) (hrunning : s.aborted = false)
    (henabled : s.shouldLog level = true) :
    let impl := (s.makeImpl env now level savedErrno func loc).1
    let message := values.flatMap LogStream.Insertion.text
    let suffix := suffixOf env (some impl.basename, impl.line)
    let t := s.logLine env now level savedErrno func loc values
    (impl.stream.data ++ message ++ suffix).length + LogStream.kMaxNumericSize ≤ kSmallBuffer →
      t.records = s.records ++ [impl.stream.data ++ message ++ suffix] ∧ t.dangling = s.dangling := by
  intro impl message suffix t hfits
  obtain ⟨hrecorded, hdangling⟩ : Recorded env _ _ t ∧ t.dangling = s.dangling := by
    simp only [t, logLine_of_enabled henabled]
    exact loggerStream_recorded hrunning hidle.temporaries
  refine ⟨?_, hdangling⟩
  have hdata : (values.foldl LogStream.insert impl.stream).data = impl.stream.data ++ message := by
    apply LogStream.data_foldl_insert
    rw [List.length_append, List.length_append] at hfits
    exact Nat.le_trans (Nat.add_le_add_right (Nat.le_add_right _ _) _) hfits
  rw [← hdata]
  refine hrecorded.whole hidle ?_
  rw [hdata]
  exact Nat.le_trans (Nat.le_add_right _ _) hfits

/-! ## Records of formats -/

theorem appendRaw_of_le {suffix data : List Char} (h : suffix.length + data.length ≤ suffixSize) :
    appendRaw suffix data = suffix ++ data := by
  rw [appendRaw, List.take_of_length_le (by omega)]

theorem appendLine_of_lt {suffix : List Char} {line : Nat}
    (h : suffix.length + (toString line).toList.length < suffixSize) :
    appendLine suffix line = suffix ++ (toString line).toList := by
  have hroom : (toString line).toList.length ≤ suffixSize - suffix.length := by omega
  rw [appendLine, if_pos (by omega), if_pos hroom]

/-- The suffix of a file name and a line that fit into its 256 characters. -/
theorem suffixOf_short {basename : FileName} {line : Nat}
    (h : (env.chars basename).length + (toString line).toList.length + 5 ≤ suffixSize) :
    suffixOf env (some basename, line) =
      " - ".toList ++ env.chars basename ++ [':'] ++ (toString line).toList ++ ['\n'] := by
  have hdash : (" - ".toList).length = 3 := rfl
  have hstart : appendRaw [] " - ".toList = " - ".toList := appendRaw_of_le (by decide)
  have hname : appendRaw " - ".toList (env.chars basename) = " - ".toList ++ env.chars basename :=
    appendRaw_of_le (by omega)
  have hcolon : appendRaw (" - ".toList ++ env.chars basename) [':'] = " - ".toList ++ env.chars basename ++ [':'] := by
    apply appendRaw_of_le
    simp only [List.length_append, List.length_singleton]
    omega
  have hline : appendLine (" - ".toList ++ env.chars basename ++ [':']) line =
      " - ".toList ++ env.chars basename ++ [':'] ++ (toString line).toList := by
    apply appendLine_of_lt
    simp only [List.length_append, List.length_singleton]
    omega
  simp only [suffixOf, hstart, hname, hcolon, hline]
  apply appendRaw_of_le
  simp only [List.length_append, List.length_singleton]
  omega

/-- The call goes to `logFmt` if its level is enabled. -/
theorem perform_of_enabled {call : FormatCall} {fmt : List Char} {args : List Arg}
    (henabled : s.logLevel ≤ call.level) :
    call.perform env now loc fmt args s = s.logFmtErr env now call.level 0 loc fmt args := by
  rw [FormatCall.perform, if_neg fun h => h.2 henabled]
  rfl

/-- Whatever was logged before: a call with a format of a level that is enabled passes one record on, which is the
header and the suffix without the message, and then uses a stream that is gone. The record is the one with the
message between them exactly if the message is empty. -/
theorem formatted_record {es : List (Event Zone Arg)} {logLevel : LogLevel}
    (run : (system env).Run (fun _ _ => True) { logLevel } es s) (hrunning : s.aborted = false) (call : FormatCall)
    (henabled : s.logLevel ≤ call.level) (now : Nat) (loc : SourceLocation) (fmt : List Char) (args : List Arg) :
    let impl := (s.makeImpl env now call.level 0 [] loc).1
    let header := impl.stream.data
    let message := env.render fmt args
    let suffix := suffixOf env (some impl.basename, loc.line)
    let t := call.perform env now loc fmt args s
    (header ++ message ++ suffix).length ≤ kSmallBuffer →
      t.records = s.records ++ [header ++ suffix] ∧
      t.dangling = (s.dangling + if call.level = .fatal then 0 else 1) ∧
      (t.records = s.records ++ [header ++ message ++ suffix] ↔ message = []) ∧
      ((env.chars impl.basename).length + (toString loc.line).toList.length + 5 ≤ suffixSize →
        suffix = " - ".toList ++ env.chars impl.basename ++ [':'] ++ (toString loc.line).toList ++ ['\n']) := by
  intro impl header message suffix t hfits
  have hidle := idle_of_run run
  have hcall : t = s.logFmtErr env now call.level 0 loc fmt args := perform_of_enabled henabled
  have hstatement : Recorded env (s.makeImpl env now call.level 0 [] loc).2 impl t ∧
      t.dangling = s.dangling + if call.level = .fatal then 0 else 1 := by
    rw [hcall]
    exact logFmtErr_recorded hrunning hidle.temporaries henabled
  have hrecords : t.records = s.records ++ [header ++ suffix] := by
    refine hstatement.1.whole hidle ?_
    rw [List.length_append, List.length_append] at hfits
    rw [List.length_append]
    exact Nat.le_trans (Nat.add_le_add_right (Nat.le_add_right _ _) _) hfits
  refine ⟨hrecords, hstatement.2, ?_, suffixOf_short⟩
  rw [hrecords, List.append_cancel_left_eq, List.cons.injEq, List.append_cancel_right_eq, List.self_eq_append_right]
  exact and_iff_left rfl

/-- Second 1700000000 in UTC. -/
def sampleUtc : DateTime := { year := 2023, month := 11, day := 14, hour := 22, minute := 13, second := 20 }

/-- The same second eight hours to the east. -/
def sampleEast : DateTime := { year := 2023, month := 11, day := 15, hour := 6, minute := 13, second := 20 }

/-- In that second and in thread 1234, with what `std::format` makes of the one format that is used. -/
def sampleEnv (rendered : List Char) : LogEnv Unit (List Char) where
  fileName _ := "src/muduo/base/Logging.h".toList
  toUtcTime _ := sampleUtc
  toLocalTime _ _ := sampleEast
  strerror _ := "Success".toList
  tidString := " 1234 ".toList
  render _ _ := rendered

/-- `logInfo("{}", "")` -/
theorem formatted_record_empty :
    ∃ s : LogThread Unit, (system (sampleEnv [])).Run (fun _ _ => True) {} [] s ∧ s.aborted = false ∧
      (FormatCall.logInfo.perform (sampleEnv []) 1700000000123456 ⟨0, 245⟩ "{}".toList [[]] s).records =
        ["20231114 22:13:20.123456Z  1234 INFO   - Logging.h:245\n".toList] := by
  have hrun : (system (sampleEnv [])).Run (fun _ _ => True) {} [] {} := .nil _
  refine ⟨{}, hrun, rfl, ?_⟩
  have hrecord := formatted_record hrun rfl .logInfo (by decide) 1700000000123456 ⟨0, 245⟩ "{}".toList [[]]
    (by decide +kernel)
  exact (hrecord.2.2.1.mpr rfl).trans (by decide +kernel)

/-- `logInfo("hello-fmt {}", 42)` -/
theorem message_lost :
    let env := sampleEnv "hello-fmt 42".toList
    let t := FormatCall.logInfo.perform env 1700000000123456 ⟨0, 245⟩ "hello-fmt {}".toList ["42".toList] {}
    t.records = ["20231114 22:13:20.123456Z  1234 INFO   - Logging.h:245\n".toList] ∧ t.dangling = 1 ∧
      ¬"hello-fmt 42".toList <:+: t.records.flatten := by
  decide +kernel

end LogThread
end Muduo
