import Mathlib.Data.List.Forall2
import Muduo.Theorems.LogRecords

/-! # The time of a record

The text of the second is kept from the record before, by the number of the second only. Beside the thread runs a
list of the stamps that its records should begin with, each rendered directly; while a record of the second kept finds
the time zone of the record before it, the two agree. -/

namespace Muduo.LogThread
open Lib
variable {Zone Arg : Type} {env : LogEnv Zone Arg} {s t : LogThread Zone} {e : Event Zone Arg} {now : Nat}
  {level : LogLevel} {savedErrno : Int} {func time : List Char} {timeZone : Option Zone}

/-! ## The front of the header -/

/-- What the record of the moment `now` begins with. -/
def stamp (env : LogEnv Zone Arg) (timeZone : Option Zone) (now : Nat) : List Char :=
  (env.dateTime timeZone (now / 1000000)).text ++ (usText now ++ zoneText timeZone)

theorem length_text (dt : DateTime) : dt.text.length = 17 := rfl

theorem length_stamp : (stamp env timeZone now).length ≤ kSmallBuffer := by
  have hus : (usText now).length = 7 := rfl
  have hzone : (zoneText timeZone).length ≤ 2 := by
    unfold zoneText
    split <;> decide
  rw [stamp, List.length_append, List.length_append, length_text, hus, kSmallBuffer]
  omega

/-- What is put behind the stamp leaves it as it is. -/
theorem header_starts (h : (time ++ (usText now ++ zoneText timeZone)).length ≤ kSmallBuffer) :
    time ++ (usText now ++ zoneText timeZone) <+:
      ((header env time now timeZone level savedErrno func).foldl LogStream.insert {}).data := by
  rw [List.length_append] at h
  have htime : (({} : LogStream).append time).data = time :=
    LogStream.data_append (Nat.le_trans (Nat.le_of_eq (Nat.zero_add _)) (Nat.le_trans (Nat.le_add_right _ _) h))
  have hstart : ((({} : LogStream).append time).append (usText now ++ zoneText timeZone)).data =
      time ++ (usText now ++ zoneText timeZone) := by
    rw [LogStream.data_append (by rwa [htime]), htime]
  rw [← hstart]
  exact LogStream.head_foldl_insert _

/-! ## The stamps of a run -/

/-- What the records are for: each begins with its own moment in the time zone that is set then. -/
structure Stamps (Zone : Type) where
  logLevel : LogLevel
  timeZone : Option Zone := none
  stamps : List (List Char) := []

def Stamps.perform (env : LogEnv Zone Arg) (a : Stamps Zone) (e : Event Zone Arg) : Stamps Zone where
  logLevel := (e.settings (a.logLevel, a.timeZone)).1
  timeZone := (e.settings (a.logLevel, a.timeZone)).2
  stamps := a.stamps ++ ((e.reading a.logLevel).map (stamp env a.timeZone)).toList

/-- A record in the second that is kept is made only after another one, in the time zone of that one. -/
def Steady (s : LogThread Zone) (e : Event Zone Arg) : Prop :=
  ∀ now ∈ e.reading s.logLevel, now / 1000000 = s.time.key → s.zoneThen = some s.timeZone

instance [DecidableEq Zone] (s : LogThread Zone) (e : Event Zone Arg) : Decidable (Steady s e) :=
  inferInstanceAs (Decidable (∀ now ∈ e.reading s.logLevel, now / 1000000 = s.time.key → s.zoneThen = some s.timeZone))

structure Stamped (env : LogEnv Zone Arg) (s : LogThread Zone) (a : Stamps Zone) : Prop where
  idle : Idle env s
  logLevel : s.logLevel = a.logLevel
  timeZone : s.timeZone = a.timeZone
  /-- The text kept is that of its second in the time zone of the last record. -/
  kept : ∀ zone, s.zoneThen = some zone → s.time.value = (env.dateTime zone s.time.key).text
  records : List.Forall₂ (· <+: ·) a.stamps s.records

/-- The logger that is made next writes the right stamp, and keeps the text of its second. -/
theorem Stamped.makeImpl {a : Stamps Zone} (h : Stamped env s a)
    (hsteady : now / 1000000 = s.time.key → s.zoneThen = some s.timeZone) (level : LogLevel) (savedErrno : Int)
    (func : List Char) (loc : SourceLocation) :
    stamp env s.timeZone now <+: (s.makeImpl env now level savedErrno func loc).1.stream.data ∧
      (s.makeImpl env now level savedErrno func loc).2.time.value =
        (env.dateTime s.timeZone (s.makeImpl env now level savedErrno func loc).2.time.key).text := by
  let time := s.time.fetch (fun seconds => (env.dateTime s.timeZone seconds).text) (now / 1000000)
  have hvalue : time.value = (env.dateTime s.timeZone (now / 1000000)).text := by
    refine Cache.value_fetch fun hkey => ?_
    rw [h.kept _ (hsteady hkey), hkey]
  have hkey : time.key = now / 1000000 := Cache.key_fetch
  have hstream : (s.makeImpl env now level savedErrno func loc).1.stream =
      (header env time.value now s.timeZone level savedErrno func).foldl LogStream.insert {} := rfl
  have htime : (s.makeImpl env now level savedErrno func loc).2.time = time := rfl
  constructor
  · rw [hstream, hvalue]
    exact header_starts length_stamp
  · rw [htime, hkey]
    exact hvalue

theorem Stamped.effect {a : Stamps Zone} (h : Stamped env s a) (hsteady : Steady s e) (hidle : Idle env t)
    (he : Effect env s e t) : Stamped env t (a.perform env e) := by
  have hlogLevel := h.logLevel
  have htimeZone := h.timeZone
  cases he with
  | settles _ hreading heq =>
    subst heq
    rw [hlogLevel] at hreading
    refine ⟨hidle, ?_, ?_, h.kept, ?_⟩
    · rw [Stamps.perform, hlogLevel, htimeZone]
    · rw [Stamps.perform, hlogLevel, htimeZone]
    · simpa only [Stamps.perform, hreading, Option.map_none, Option.toList_none, List.append_nil] using h.records
  | @records now level savedErrno func loc stream _ hreading hsettings hhead hrecorded =>
    obtain ⟨hstamp, hkept⟩ := h.makeImpl (hsteady now hreading) level savedErrno func loc
    rw [hlogLevel, htimeZone] at hsettings
    refine ⟨hidle, ?_, ?_, ?_, ?_⟩
    · rw [Stamps.perform, hsettings, hrecorded.logLevel]
      exact hlogLevel
    · rw [Stamps.perform, hsettings, hrecorded.timeZone]
      exact htimeZone
    · intro zone hzone
      rw [hrecorded.zoneThen] at hzone
      cases hzone
      rw [hrecorded.time]
      exact hkept
    · rw [Stamps.perform, ← hlogLevel, ← htimeZone, hreading, hrecorded.records]
      refine List.rel_append h.records (.cons ?_ .nil)
      exact hstamp.trans (hhead.trans LogStream.head_append)

theorem stamped_new {logLevel : LogLevel} : Stamped env ({ logLevel } : LogThread Zone) { logLevel } := by
  refine ⟨idle_new, rfl, rfl, ?_, .nil⟩
  intro zone hzone
  cases hzone

/-- Whatever a thread logs and whenever the time zone is set, every record begins with the direct rendering of its
own moment in the time zone in force, as long as a record of the second kept finds the time zone of the record before
it. -/
theorem stamps_right {es : List (Event Zone Arg)} {logLevel : LogLevel}
    (run : (system env).Run Steady { logLevel } es s) :
    List.Forall₂ (· <+: ·) (es.foldl (Stamps.perform env) { logLevel }).stamps s.records := by
  have hstamped : Stamped env s (es.foldl (Stamps.perform env) { logLevel }) := by
    refine run.refines (fun h hsteady hstep => ?_) stamped_new
    obtain ⟨hidle, he⟩ := h.idle.step hstep
    exact h.effect hsteady hidle he
  exact hstamped.records

/-- Seconds 0, 1700000000 and the one after, in UTC and eight hours to the east of it. -/
def clockEnv : LogEnv Unit (List Char) where
  fileName _ := "main.cc".toList
  toUtcTime
    | 0 => { year := 1970, month := 1, day := 1, hour := 0, minute := 0, second := 0 }
    | 1700000000 => sampleUtc
    | _ => { year := 2023, month := 11, day := 14, hour := 22, minute := 13, second := 21 }
  toLocalTime
    | _, 0 => { year := 1970, month := 1, day := 1, hour := 8, minute := 0, second := 0 }
    | _, 1700000000 => sampleEast
    | _, _ => { year := 2023, month := 11, day := 15, hour := 6, minute := 13, second := 21 }
  strerror _ := "Success".toList
  tidString := " 1234 ".toList
  render _ _ := []

def lineAt (now : Nat) : Event Unit (List Char) := .line now .info 0 [] ⟨0, 7⟩ []

/-- The zone is set between two seconds, and the clock goes back to a second of before. -/
theorem stamps_right_back :
    ∃ s, (system clockEnv).Run Steady {}
        [lineAt 1700000000000001, lineAt 1700000000999999, .setTimeZone (some ()), lineAt 1700000001000000,
          lineAt 1700000000500000] s ∧
      List.Forall₂ (· <+: ·)
        ["20231114 22:13:20.000001Z ".toList, "20231114 22:13:20.999999Z ".toList, "20231115 06:13:21.000000 ".toList,
          "20231115 06:13:20.500000 ".toList] s.records :=
  Stepper.Run.replay rfl fun run => stamps_right run

/-- The first record of a thread in second 0 begins with the characters that `t_time` has at first; and a time zone
that is set within a second is not seen before the next one. -/
theorem stamps_stale :
    (∃ s, (system clockEnv).Run (fun _ _ => True) {} [lineAt 5] s ∧
      stamp clockEnv none 5 = "19700101 00:00:00.000005Z ".toList ∧
      s.records.map (·.take 26) = [List.replicate 17 (Char.ofNat 0) ++ ".000005Z ".toList]) ∧
    ∃ s, (system clockEnv).Run (fun _ _ => True) {}
        [lineAt 1700000000000001, .setTimeZone (some ()), lineAt 1700000000999999] s ∧
      stamp clockEnv (some ()) 1700000000999999 = "20231115 06:13:20.999999 ".toList ∧
      s.records.map (·.take 25) = ["20231114 22:13:20.000001Z".toList, "20231114 22:13:20.999999 ".toList] :=
  ⟨Stepper.Run.replay rfl fun _ => by decide +kernel, Stepper.Run.replay rfl fun _ => by decide +kernel⟩

end Muduo.LogThread
