import Muduo.Theorems.LogRecords

/-! # Records and lines

The suffix, and the newline at its end, is what is put last into a record of limited size and into the cache of `finish`,
which is of limited size itself; so it is the first to be lost. If both have room for it, then every record is one line
and the records can be read back from the file. -/

namespace Muduo
open Lib

/-- There is no newline in it. -/
def Clean (l : List Char) : Prop := '\n' ∉ l

instance (l : List Char) : Decidable (Clean l) := inferInstanceAs (Decidable ('\n' ∉ l))

section
variable {l l' : List Char}

theorem clean_append : Clean (l ++ l') ↔ Clean l ∧ Clean l' := by
  simp only [Clean, List.mem_append, not_or]

theorem Clean.take (h : Clean l) (n : Nat) : Clean (l.take n) := fun hmem => h (List.mem_of_mem_take hmem)

/-- Lines that end in a newline are found again. -/
theorem splitOn_lines {lines : List (List Char)} (h : ∀ l ∈ lines, Clean l) :
    (lines.map (· ++ ['\n'])).flatten.splitOn '\n' = lines ++ [[]] := by
  induction lines with
  | nil => rfl
  | cons l lines ih =>
    have hl : ∀ c ∈ l, (c == '\n') = false := by
      intro c hc
      rw [beq_eq_false_iff_ne]
      rintro rfl
      exact h l List.mem_cons_self hc
    rw [List.map_cons, List.flatten_cons, List.append_assoc, List.singleton_append, List.splitOn,
      List.splitOnP_append_cons_of_forall_mem hl _ rfl]
    exact congrArg (l :: ·) (ih fun l hl => h l (List.mem_cons_of_mem _ hl))

theorem isDigit_of_mem_toString {n : Nat} {c : Char} (h : c ∈ (toString n).toList) : c.isDigit = true := by
  rw [Nat.toString_eq_ofList_toDigits, String.toList_ofList] at h
  exact Nat.isDigit_of_mem_toDigits (by decide) (by decide) h

theorem toString_ne_nil (n : Nat) : (toString n).toList ≠ [] := by
  rw [Nat.toString_eq_ofList_toDigits, String.toList_ofList]
  exact Nat.toDigits_ne_nil

theorem clean_toString_nat (n : Nat) : Clean (toString n).toList := fun h => by
  have hdigit := isDigit_of_mem_toString h
  revert hdigit
  decide

theorem clean_toString_int (v : Int) : Clean (toString v).toList := by
  cases v with
  | ofNat n => exact clean_toString_nat n
  | negSucc n =>
    have heq : toString (Int.negSucc n) = "-" ++ toString (n + 1) := rfl
    rw [heq, String.toList_append, clean_append]
    exact ⟨by decide, clean_toString_nat _⟩

end

/-! ## The texts of a record -/

namespace LogStream
variable {s : LogStream}

theorem clean_insert {value : Insertion} (hs : Clean s.data) (h : Clean value.text) : Clean (s.insert value).data := by
  rcases insert_cases s value with ⟨-, heq⟩ | ⟨-, heq⟩
  · rwa [heq]
  · rw [heq]
    exact clean_append.mpr ⟨hs, h.take _⟩

theorem clean_foldl_insert {values : List Insertion} (hs : Clean s.data) (h : ∀ value ∈ values, Clean value.text) :
    Clean (values.foldl insert s).data := by
  induction values generalizing s with
  | nil => exact hs
  | cons value values ih =>
    exact ih (clean_insert hs (h value List.mem_cons_self)) fun value hvalue => h value (List.mem_cons_of_mem _ hvalue)

end LogStream

theorem clean_write2Digits : ∀ {n : Nat}, n < 100 → Clean (write2Digits n) := by
  have h : ∀ n < 100, Clean (write2Digits n) := by decide
  exact fun {n} hn => h n hn

theorem clean_write4Digits (n : Int) : Clean (write4Digits n) := by
  have hle : (if n < 0 then 0 else if 9999 < n then 9999 else n.toNat) ≤ 9999 := by
    split
    · decide
    · split <;> omega
  rw [write4Digits]
  generalize (if n < 0 then 0 else if 9999 < n then 9999 else n.toNat) = value at hle
  exact clean_append.mpr ⟨clean_write2Digits (by omega), clean_write2Digits (by omega)⟩

theorem DateTime.clean_text (dt : DateTime) : Clean dt.text := by
  obtain ⟨hmonth, hday, hhour, hminute, hsecond⟩ := dt.two_digits
  have hyear := clean_write4Digits dt.year
  have hspace : Clean [' '] := by decide
  have hcolon : Clean [':'] := by decide
  simp only [text, clean_append]
  exact ⟨⟨⟨⟨⟨⟨⟨⟨hyear, clean_write2Digits hmonth⟩, clean_write2Digits hday⟩, hspace⟩, clean_write2Digits hhour⟩, hcolon⟩,
    clean_write2Digits hminute⟩, hcolon⟩, clean_write2Digits hsecond⟩

/-- The texts that come from outside. -/
structure LogEnv.OneLine {Zone Arg : Type} (env : LogEnv Zone Arg) : Prop where
  fileName : ∀ file, Clean (env.fileName file)
  strerror : ∀ savedErrno, Clean (env.strerror savedErrno)
  tidString : Clean env.tidString

namespace LogThread
variable {Zone Arg : Type} {env : LogEnv Zone Arg} {s t : LogThread Zone} {now : Nat} {e : Event Zone Arg}
  {level : LogLevel} {savedErrno : Int} {func : List Char} {loc : SourceLocation} {impl : LoggerImpl}

theorem clean_usText (now : Nat) : Clean (usText now) := by
  have hdot : Clean ['.'] := by decide
  rw [usText, ← List.singleton_append, clean_append, clean_append, clean_append]
  exact ⟨⟨⟨hdot, clean_write2Digits (by omega)⟩, clean_write2Digits (by omega)⟩, clean_write2Digits (by omega)⟩

theorem clean_zoneText (timeZone : Option Zone) : Clean (zoneText timeZone) := by
  rw [zoneText]
  split <;> decide

theorem clean_levelName (level : LogLevel) : Clean (kLogLevelName level) := by
  cases level <;> decide

theorem clean_header {time : List Char} {timeZone : Option Zone} (henv : env.OneLine) (htime : Clean time)
    (hfunc : Clean func) : ∀ value ∈ header env time now timeZone level savedErrno func, Clean value.text := by
  have hus : Clean (usText now ++ zoneText timeZone) := clean_append.mpr ⟨clean_usText now, clean_zoneText timeZone⟩
  have hnone : ∀ value ∈ ([] : List LogStream.Insertion), Clean value.text := fun _ h => nomatch h
  rw [header, List.forall_mem_append, List.forall_mem_append]
  refine ⟨⟨?_, ?_⟩, ?_⟩
  · simp only [List.forall_mem_cons]
    exact ⟨htime, hus, henv.tidString, clean_levelName level, hnone⟩
  · split
    · exact hnone
    · simp only [List.forall_mem_cons]
      exact ⟨hfunc, by decide, hnone⟩
  · split
    · exact hnone
    · simp only [List.forall_mem_cons]
      exact ⟨henv.strerror _, by decide, clean_toString_int _, by decide, hnone⟩

/-- The texts of an event. -/
def Event.OneLine : Event Zone Arg → Prop
  | .line _ _ _ func _ values => Clean func ∧ ∀ value ∈ values, Clean value.text
  | .logger _ _ _ func _ values => Clean func ∧ ∀ value ∈ values, Clean value.text
  | _ => True

instance : ∀ e : Event Zone Arg, Decidable e.OneLine
  | .line _ _ _ func _ values | .logger _ _ _ func _ values =>
    inferInstanceAs (Decidable (Clean func ∧ ∀ value ∈ values, Clean value.text))
  | .format .. | .formatErr .. | .setLogLevel _ | .setTimeZone _ => inferInstanceAs (Decidable True)

/-- The text of the second that is kept has no newline. -/
theorem clean_time (htime : Clean s.time.value) : Clean (s.makeImpl env now level savedErrno func loc).2.time.value := by
  have heq : (s.makeImpl env now level savedErrno func loc).2.time =
      s.time.fetch (fun seconds => (env.dateTime s.timeZone seconds).text) (now / 1000000) := rfl
  rw [heq, Cache.fetch]
  split
  · exact htime
  · exact DateTime.clean_text _

theorem clean_makeImpl (henv : env.OneLine) (htime : Clean s.time.value) (hfunc : Clean func) :
    Clean (s.makeImpl env now level savedErrno func loc).1.stream.data := by
  have hkept : Clean (s.makeImpl env now level savedErrno func loc).2.time.value := clean_time htime
  have hempty : Clean ({} : LogStream).data := fun h => nomatch h
  exact LogStream.clean_foldl_insert hempty (clean_header henv hkept hfunc)

theorem clean_made (henv : env.OneLine) (htime : Clean s.time.value) (he : e.OneLine)
    (hmade : e.made env s = some impl) : Clean impl.stream.data := by
  have hnil : Clean [] := fun h => nomatch h
  cases e with
  | format now call loc fmt args =>
    obtain ⟨-, ⟨⟩⟩ := Option.ite_none_right_eq_some.mp hmade
    exact clean_makeImpl henv htime hnil
  | formatErr now level savedErrno loc fmt args =>
    obtain ⟨-, ⟨⟩⟩ := Option.ite_none_right_eq_some.mp hmade
    exact clean_makeImpl henv htime hnil
  | line now level savedErrno func loc values =>
    obtain ⟨-, ⟨⟩⟩ := Option.ite_none_right_eq_some.mp hmade
    exact LogStream.clean_foldl_insert (clean_makeImpl henv htime he.1) he.2
  | logger now level savedErrno func loc values =>
    cases hmade
    exact LogStream.clean_foldl_insert (clean_makeImpl henv htime he.1) he.2
  | setLogLevel level => cases hmade
  | setTimeZone timeZone => cases hmade

/-! ## The suffix -/

/-- What `finish` is to put behind the message. -/
def suffixText (env : LogEnv Zone Arg) (impl : LoggerImpl) : List Char :=
  " - ".toList ++ env.chars impl.basename ++ [':'] ++ (toString impl.line).toList ++ ['\n']

theorem suffixText_eq : suffixText env impl =
    " - ".toList ++ env.chars impl.basename ++ [':'] ++ (toString impl.line).toList ++ ['\n'] := rfl

/-- The record of a logger. -/
def record (env : LogEnv Zone Arg) (impl : LoggerImpl) : List Char :=
  (impl.stream.append (suffixOf env (some impl.basename, impl.line))).data

/-- There is room for the suffix, in the cache of `finish` and in the stream. -/
def HasRoom (env : LogEnv Zone Arg) (impl : LoggerImpl) : Prop :=
  (suffixText env impl).length ≤ suffixSize ∧ impl.stream.data.length + (suffixText env impl).length ≤ kSmallBuffer

instance (env : LogEnv Zone Arg) (impl : LoggerImpl) : Decidable (HasRoom env impl) :=
  inferInstanceAs (Decidable ((suffixText env impl).length ≤ suffixSize ∧
    impl.stream.data.length + (suffixText env impl).length ≤ kSmallBuffer))

/-- The line that a record is to be. -/
def lineOf (env : LogEnv Zone Arg) (impl : LoggerImpl) : List Char :=
  impl.stream.data ++ (" - ".toList ++ env.chars impl.basename ++ [':'] ++ (toString impl.line).toList)

theorem record_of_room (h : HasRoom env impl) : record env impl = lineOf env impl ++ ['\n'] := by
  obtain ⟨hsuffix, hrecord⟩ := h
  have hshort : (env.chars impl.basename).length + (toString impl.line).toList.length + 5 ≤ suffixSize := by
    have hdash : (" - ".toList).length = 3 := rfl
    simp only [suffixText_eq, List.length_append, List.length_singleton] at hsuffix
    omega
  have hsuffixOf : suffixOf env (some impl.basename, impl.line) = suffixText env impl := suffixOf_short hshort
  rw [record, hsuffixOf, LogStream.data_append hrecord]
  exact (List.append_assoc _ _ _).symm

/-- What leaves something of the 256 characters was appended in full. -/
theorem appendRaw_of_lt {suffix data : List Char} (h : (appendRaw suffix data).length < suffixSize) :
    appendRaw suffix data = suffix ++ data := by
  apply appendRaw_of_le
  rw [appendRaw, List.length_append, List.length_take] at h
  omega

theorem length_le_appendRaw (suffix data : List Char) : suffix.length ≤ (appendRaw suffix data).length := by
  rw [appendRaw, List.length_append]
  exact Nat.le_add_right _ _

theorem clean_appendRaw {suffix data : List Char} (hsuffix : Clean suffix) (hdata : Clean data) :
    Clean (appendRaw suffix data) := clean_append.mpr ⟨hsuffix, hdata.take _⟩

theorem appendLine_cases (suffix : List Char) (line : Nat) :
    appendLine suffix line = suffix ++ (toString line).toList ∨ appendLine suffix line = appendRaw suffix ['?'] := by
  rw [appendLine]
  split
  · split
    · exact .inl rfl
    · exact .inr rfl
  · exact .inr rfl

/-- The suffix before its newline, as far as it fits. -/
def suffixBody (env : LogEnv Zone Arg) (impl : LoggerImpl) : List Char :=
  appendLine (appendRaw (appendRaw (appendRaw [] " - ".toList) (env.chars impl.basename)) [':']) impl.line

theorem clean_suffixBody (hname : Clean (env.chars impl.basename)) : Clean (suffixBody env impl) := by
  have hdash : Clean (appendRaw [] " - ".toList) := by decide
  have hstart := clean_appendRaw (clean_appendRaw hdash hname) (by decide : Clean [':'])
  rcases appendLine_cases _ impl.line with heq | heq
  · rw [suffixBody, heq]
    exact clean_append.mpr ⟨hstart, clean_toString_nat _⟩
  · rw [suffixBody, heq]
    exact clean_appendRaw hstart (by decide)

/-- A body that leaves room for the newline has the whole name, and the line or a question mark. -/
theorem suffixBody_of_lt (h : (suffixBody env impl).length < suffixSize) :
    suffixBody env impl = " - ".toList ++ env.chars impl.basename ++ [':'] ++ (toString impl.line).toList ∨
      suffixBody env impl = " - ".toList ++ env.chars impl.basename ++ [':'] ++ ['?'] := by
  have hstart : (appendRaw (appendRaw (appendRaw [] " - ".toList) (env.chars impl.basename)) [':']).length < suffixSize := by
    refine Nat.lt_of_le_of_lt ?_ h
    rcases appendLine_cases (appendRaw (appendRaw (appendRaw [] " - ".toList) (env.chars impl.basename)) [':']) impl.line
      with heq | heq
    · rw [suffixBody, heq, List.length_append]
      exact Nat.le_add_right _ _
    · rw [suffixBody, heq]
      exact length_le_appendRaw _ _
  have hname : (appendRaw (appendRaw [] " - ".toList) (env.chars impl.basename)).length < suffixSize :=
    Nat.lt_of_le_of_lt (length_le_appendRaw _ _) hstart
  have hdash : appendRaw [] " - ".toList = " - ".toList := rfl
  have hwhole : appendRaw (appendRaw (appendRaw [] " - ".toList) (env.chars impl.basename)) [':'] =
      " - ".toList ++ env.chars impl.basename ++ [':'] := by
    rw [appendRaw_of_lt hstart, appendRaw_of_lt hname, hdash]
  rw [suffixBody, hwhole] at h ⊢
  rcases appendLine_cases (" - ".toList ++ env.chars impl.basename ++ [':']) impl.line with heq | heq
  · exact .inl heq
  · rw [heq] at h ⊢
    exact .inr (appendRaw_of_lt h)

/-- A record with a newline has room for it, in the cache and in the stream. -/
theorem record_of_newline (hdata : Clean impl.stream.data) (hname : Clean (env.chars impl.basename))
    (h : ¬Clean (record env impl)) :
    (suffixBody env impl).length < suffixSize ∧
      impl.stream.data.length + (suffixBody env impl).length < kSmallBuffer ∧
      record env impl = impl.stream.data ++ (suffixBody env impl ++ ['\n']) := by
  have hbody := clean_suffixBody hname
  have heq : record env impl = impl.stream.data ++ (appendRaw (suffixBody env impl) ['\n']).take impl.stream.avail := rfl
  rw [heq] at h ⊢
  have hcut : ¬Clean ((appendRaw (suffixBody env impl) ['\n']).take impl.stream.avail) :=
    fun hclean => h (clean_append.mpr ⟨hdata, hclean⟩)
  have hcache : (suffixBody env impl).length < suffixSize := by
    by_contra hfull
    have hnone : suffixSize - (suffixBody env impl).length = 0 := by omega
    refine hcut (Clean.take ?_ _)
    rw [appendRaw, hnone, List.take_zero, List.append_nil]
    exact hbody
  have hwhole : appendRaw (suffixBody env impl) ['\n'] = suffixBody env impl ++ ['\n'] := appendRaw_of_le hcache
  rw [hwhole] at hcut ⊢
  have hstream : (suffixBody env impl).length < impl.stream.avail := by
    by_contra hfull
    refine hcut ?_
    rw [List.take_append_of_le_length (Nat.not_lt.mp hfull)]
    exact hbody.take _
  refine ⟨hcache, ?_, ?_⟩
  · unfold LogStream.avail at hstream
    omega
  · rw [List.take_of_length_le]
    rw [List.length_append, List.length_singleton]
    exact hstream

/-- A record ends with its suffix exactly if there is room for it. -/
theorem suffix_record_iff (hdata : Clean impl.stream.data) (hname : Clean (env.chars impl.basename)) :
    suffixText env impl <:+ record env impl ↔ HasRoom env impl := by
  constructor
  · rintro ⟨front, hfront⟩
    have hnewline : ¬Clean (record env impl) := by
      rw [← hfront, suffixText_eq, clean_append, clean_append]
      exact fun h => absurd h.2.2 (by decide)
    obtain ⟨hcache, hstream, heq⟩ := record_of_newline hdata hname hnewline
    rcases suffixBody_of_lt hcache with hbody | hbody
    · rw [hbody] at hcache hstream
      rw [HasRoom, suffixText_eq, List.length_append, List.length_singleton]
      exact ⟨hcache, hstream⟩
    · -- The question mark stands where the record should have a digit.
      obtain ⟨digits, digit, hlast⟩ := (List.eq_nil_or_concat _).resolve_left (toString_ne_nil impl.line)
      rw [List.concat_eq_append] at hlast
      rw [heq, hbody, suffixText_eq, hlast] at hfront
      simp only [← List.append_assoc] at hfront
      obtain ⟨-, heq'⟩ := List.append_inj' (List.append_cancel_right hfront) rfl
      cases heq'
      have hdigit : '?' ∈ (toString impl.line).toList := hlast ▸ List.mem_append_right _ (List.mem_singleton_self _)
      exact absurd (isDigit_of_mem_toString hdigit) (by decide)
  · intro h
    rw [record_of_room h, lineOf, List.append_assoc]
    exact List.suffix_append _ _

/-! ## Runs -/

/-- The loggers that are made from a state on. -/
def logged (env : LogEnv Zone Arg) : LogThread Zone → List (Event Zone Arg) → List LoggerImpl
  | _, [] => []
  | s, e :: es => (e.made env s).toList ++ logged env (s.perform env e) es

/-- The loggers before there is a record have no newline in them, nor does the text of the second that is kept. -/
structure Tidy (env : LogEnv Zone Arg) (s : LogThread Zone) : Prop where
  idle : Idle env s
  time : Clean s.time.value

theorem tidy_new {logLevel : LogLevel} : Tidy env ({ logLevel } : LogThread Zone) :=
  ⟨idle_new, (by decide : Clean (List.replicate 17 (Char.ofNat 0)))⟩

/-- One step passes on the record of the logger that it makes. -/
theorem Tidy.step (h : Tidy env s) (hstep : (system env).step s e = some t) :
    Tidy env t ∧ t = s.perform env e ∧ t.records = s.records ++ (e.made env s).toList.map (record env) := by
  obtain ⟨hidle, he⟩ := h.idle.step hstep
  obtain ⟨-, heq⟩ := perform_of_step hstep
  cases he with
  | settles hmade _ hsettled =>
    refine ⟨⟨hidle, ?_⟩, heq.symm, ?_⟩
    · rw [hsettled]
      exact h.time
    · rw [hmade, hsettled]
      exact (List.append_nil _).symm
  | @records _ _ _ _ _ stream hmade _ _ _ hrecorded =>
    refine ⟨⟨hidle, ?_⟩, heq.symm, ?_⟩
    · rw [hrecorded.time]
      exact clean_time h.time
    · rw [hmade, hrecorded.records]
      exact congrArg (fun suffix => s.records ++ [(stream.append suffix).data]) (h.idle.value_suffix _ _)

theorem Tidy.run {es : List (Event Zone Arg)} (h : Tidy env s) (run : (system env).Run (fun _ _ => True) s es t) :
    t.records = s.records ++ (logged env s es).map (record env) := by
  induction run with
  | nil => exact (List.append_nil _).symm
  | cons _ hstep _ ih =>
    obtain ⟨htidy, rfl, hrecords⟩ := h.step hstep
    rw [ih htidy, hrecords, logged, List.map_append, List.append_assoc]

theorem Tidy.clean_logged {es : List (Event Zone Arg)} (h : Tidy env s)
    (run : (system env).Run (fun _ _ => True) s es t) (henv : env.OneLine) (hes : ∀ e ∈ es, e.OneLine) :
    ∀ impl ∈ logged env s es, Clean impl.stream.data := by
  induction run with
  | nil => exact fun _ himpl => nomatch himpl
  | cons _ hstep _ ih =>
    obtain ⟨htidy, rfl, -⟩ := h.step hstep
    rw [logged, List.forall_mem_append]
    refine ⟨?_, ih htidy fun e he => hes e (List.mem_cons_of_mem _ he)⟩
    intro impl himpl
    exact clean_made henv h.time (hes _ List.mem_cons_self) (Option.mem_toList.mp himpl)

theorem clean_chars (henv : env.OneLine) (file : FileName) : Clean (env.chars file) := by
  cases file with
  | unknown => exact (by decide : Clean "unknown".toList)
  | inside file offset => exact fun h => henv.fileName file (List.mem_of_mem_drop h)

theorem clean_lineOf (hdata : Clean impl.stream.data) (hname : Clean (env.chars impl.basename)) :
    Clean (lineOf env impl) := by
  rw [lineOf, clean_append, clean_append, clean_append, clean_append]
  exact ⟨hdata, ⟨⟨by decide, hname⟩, by decide⟩, clean_toString_nat _⟩

/-- Whatever a thread logs, in texts without newlines: one record is passed on for each logger that is made, and a record
ends with its file, line and newline exactly if there is room for them. If there always is, then every record ends with
the newline, and the lines of the file are the records. -/
theorem records_are_lines {es : List (Event Zone Arg)} {logLevel : LogLevel}
    (run : (system env).Run (fun _ _ => True) { logLevel } es s) (henv : env.OneLine) (hes : ∀ e ∈ es, e.OneLine) :
    s.records = (logged env { logLevel } es).map (record env) ∧
    (∀ impl ∈ logged env { logLevel } es, suffixText env impl <:+ record env impl ↔ HasRoom env impl) ∧
    ((∀ impl ∈ logged env { logLevel } es, HasRoom env impl) →
      (∀ r ∈ s.records, r.getLast? = some '\n') ∧
      s.records.flatten.splitOn '\n' = s.records.map List.dropLast ++ [[]]) := by
  have hrecords : s.records = (logged env { logLevel } es).map (record env) := tidy_new.run run
  have hclean := tidy_new.clean_logged run henv hes
  refine ⟨hrecords, fun impl himpl => suffix_record_iff (hclean impl himpl) (clean_chars henv _), ?_⟩
  intro hroom
  have hlines : s.records = ((logged env { logLevel } es).map (lineOf env)).map (· ++ ['\n']) := by
    rw [hrecords, List.map_map]
    exact List.map_congr_left fun impl himpl => record_of_room (hroom impl himpl)
  have hdrop : s.records.map List.dropLast = (logged env { logLevel } es).map (lineOf env) := by
    have hid : List.dropLast ∘ (· ++ ['\n']) = (id : List Char → List Char) := funext fun l => List.dropLast_concat
    rw [hlines, List.map_map, hid, List.map_id]
  constructor
  · intro r hr
    rw [hlines] at hr
    obtain ⟨l, -, rfl⟩ := List.mem_map.mp hr
    exact List.getLast?_concat
  · rw [hdrop, hlines]
    refine splitOn_lines (List.forall_mem_map.mpr fun impl himpl => ?_)
    exact clean_lineOf (hclean impl himpl) (clean_chars henv _)

theorem oneLine_sampleEnv (rendered : List Char) : (sampleEnv rendered).OneLine where
  fileName _ := (by decide : Clean "src/muduo/base/Logging.h".toList)
  strerror _ := (by decide : Clean "Success".toList)
  tidString := (by decide : Clean " 1234 ".toList)

/-- Two lines of the same file. -/
def twoLines (message : List Char) : List (Event Unit (List Char)) :=
  [.line 1700000000123456 .info 0 "main".toList ⟨0, 7⟩ [.stringView message],
    .logger 1700000000123457 .warn 0 [] ⟨0, 8⟩ [.integer 42]]

theorem twoLines_are_lines :
    ∃ s, (system (sampleEnv [])).Run (fun _ _ => True) {} (twoLines "hello".toList) s ∧
      s.records.flatten.splitOn '\n' = s.records.map List.dropLast ++ [[]] ∧
      s.records.map List.dropLast =
        ["20231114 22:13:20.123456Z  1234 INFO  main hello - Logging.h:7".toList,
          "20231114 22:13:20.123457Z  1234 WARN  42 - Logging.h:8".toList] := by
  refine Stepper.Run.replay rfl fun run => ?_
  have hes : ∀ e ∈ twoLines "hello".toList, e.OneLine := by decide
  obtain ⟨-, -, hlines⟩ := records_are_lines run (oneLine_sampleEnv []) hes
  exact ⟨(hlines (by decide +kernel)).2, by decide +kernel⟩

/-- A stream that is full takes no suffix. -/
theorem record_of_full (h : impl.stream.avail = 0) : record env impl = impl.stream.data :=
  congrArg LogStream.data (LogStream.append_of_full h)

/-- A name that fills the cache leaves no room for the newline. -/
theorem clean_record_of_long_name (hdata : Clean impl.stream.data) (hname : Clean (env.chars impl.basename))
    (hlong : suffixSize ≤ (env.chars impl.basename).length) : Clean (record env impl) := by
  by_contra hnewline
  obtain ⟨hcache, -⟩ := record_of_newline hdata hname hnewline
  have hlength : (env.chars impl.basename).length ≤ (suffixBody env impl).length := by
    rcases suffixBody_of_lt hcache with heq | heq
    · rw [heq]
      simp only [List.length_append]
      omega
    · rw [heq]
      simp only [List.length_append]
      omega
  omega

/-- A name without a slash is its own basename. -/
theorem basename_made {values : List LogStream.Insertion} (h : '/' ∉ env.fileName loc.file)
    (hmade : (Event.logger now level savedErrno func loc values).made env ({} : LogThread Zone) = some impl) :
    impl.basename = .inside loc.file 0 := by
  let file : FileName := .inside loc.file 0
  have hnone : (env.chars file).reverse.findIdx? (· = '/') = none := by
    rw [List.findIdx?_eq_none_iff]
    intro c hc
    rw [decide_eq_false_iff_not]
    rintro rfl
    exact h (List.mem_reverse.mp hc)
  have hbase : env.basenameOf file = file := by
    unfold LogEnv.basenameOf
    rw [hnone]
  have hfirst : cachedBasename env (some file) ⟨none, none⟩ = (file, ⟨some file, some file⟩) := by
    rw [cachedBasename, if_neg nofun, hbase]
  have hagain : (cachedBasename env (some file) ⟨some file, some file⟩).1 = file := by
    rw [cachedBasename, if_pos rfl]
  cases hmade
  dsimp only
  rw [makeImpl, hfirst]
  exact hagain

/-- The first logger of a thread passes its record on. -/
theorem run_logger (now : Nat) (level : LogLevel) (loc : SourceLocation) (value : LogStream.Insertion)
    (henv : env.OneLine) (hvalue : Clean value.text) :
    ∃ s : LogThread Zone, (system env).Run (fun _ _ => True) {} [.logger now level 0 [] loc [value]] s ∧
      ∃ impl ∈ (Event.logger now level 0 [] loc [value]).made env ({} : LogThread Zone),
        s.records = [record env impl] ∧ Clean impl.stream.data := by
  let e : Event Zone Arg := .logger now level 0 [] loc [value]
  have hrun : (system env).Run (fun _ _ => True) {} [e] (({} : LogThread Zone).perform env e) :=
    .cons trivial rfl (.nil _)
  have hes : ∀ e' ∈ [e], e'.OneLine :=
    List.forall_mem_singleton.mpr ⟨(fun h => nomatch h), List.forall_mem_singleton.mpr hvalue⟩
  exact ⟨_, hrun, _, rfl, tidy_new.run hrun, tidy_new.clean_logged hrun henv hes _ List.mem_cons_self⟩

/-- A file name of 300 characters. -/
def longNameEnv : LogEnv Unit (List Char) := { sampleEnv [] with fileName := fun _ => List.replicate 300 'f' }

theorem oneLine_longNameEnv : longNameEnv.OneLine :=
  { oneLine_sampleEnv [] with fileName := fun _ h => absurd (List.eq_of_mem_replicate h) (by decide) }

/-- A message fills the stream, and its record has no newline; a file name fills the cache of `finish`, and its record has
none either. -/
theorem newline_lost :
    (∃ s, (system (sampleEnv [])).Run (fun _ _ => True) {}
        [.logger 1700000000123456 .info 0 [] ⟨0, 7⟩ [.stringView (List.replicate 4000 'x')]] s ∧
      ∃ r, s.records = [r] ∧ Clean r) ∧
    ∃ s, (system longNameEnv).Run (fun _ _ => True) {} [.logger 1700000000123456 .info 0 [] ⟨0, 7⟩ [.integer 42]] s ∧
      ∃ r, s.records = [r] ∧ Clean r := by
  constructor
  · have hclean : Clean (List.replicate 4000 'x') := fun h => absurd (List.eq_of_mem_replicate h) (by decide)
    obtain ⟨s, hrun, impl, hmade, hrecords, hdata⟩ :=
      run_logger 1700000000123456 .info ⟨0, 7⟩ (.stringView (List.replicate 4000 'x')) (oneLine_sampleEnv []) hclean
    have hfull : impl.stream.avail = 0 := by
      cases hmade
      exact LogStream.avail_append_of_le (Nat.le_add_left_of_le (Nat.le_of_eq List.length_replicate.symm))
    refine ⟨s, hrun, _, hrecords, ?_⟩
    rw [record_of_full hfull]
    exact hdata
  · obtain ⟨s, hrun, impl, hmade, hrecords, hdata⟩ :=
      run_logger 1700000000123456 .info ⟨0, 7⟩ (.integer 42) oneLine_longNameEnv (clean_toString_int 42)
    have hslash : '/' ∉ List.replicate 300 'f' := fun h => absurd (List.eq_of_mem_replicate h) (by decide)
    have hlong : suffixSize ≤ (longNameEnv.chars impl.basename).length := by
      rw [basename_made hslash hmade]
      exact Nat.le_trans (Nat.le_add_right 256 44) (Nat.le_of_eq List.length_replicate.symm)
    exact ⟨s, hrun, _, hrecords, clean_record_of_long_name hdata (clean_chars oneLine_longNameEnv _) hlong⟩

end LogThread
end Muduo
