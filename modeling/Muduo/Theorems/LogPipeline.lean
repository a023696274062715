import Muduo.LogPipeline
import Muduo.Theorems.LogFiles
import Muduo.Theorems.LogLines

/-! # From `append` to the files

What the backend writes goes to files that are rolled while it writes, and to others when it is started again. As long as
the clock is not set back the files, in the order of their names, hold what was written, and so the lines of each shard
in their order. -/

namespace Muduo
open Lib

variable {n size : Nat}

def LogRecord.bytes : LogRecord n → Bytes
  | .line l => bytesOf l.text
  | .notice text => bytesOf text

theorem bytesOf_toStringView (b : FixedBuffer n) :
    bytesOf b.toStringView = (b.lines.map LogRecord.line).flatMap LogRecord.bytes := by
  simp only [FixedBuffer.toStringView, bytesOf, List.map_flatMap, List.flatMap_map]
  rfl

namespace AsyncLogging
variable {s t : AsyncLogging n}

/-- What a step of the backend gives to the log file. -/
def emitted (now : String) (s : AsyncLogging n) : List (LogRecord n) :=
  match s.backendAt with
  | .limit =>
    if s.buffersToWrite.length > 25 then [.notice (droppedMessage now (s.buffersToWrite.length - 2))] else []
  | .write k _ =>
    match s.buffersToWrite[k]? with
    | some buffer => buffer.lines.map .line
    | none => []
  | .notRunning | .test | .wait | .collect _ _ | .finished => []

theorem output_threadFunc {now : String} (h : s.threadFunc now = some t) : t.output = s.output ++ s.emitted now := by
  unfold emitted
  cases backendStep_of_threadFunc h with
  | stopSeen hat _ | waits hat | wakes hat | collects hat | lastCollected hat _ | collected hat =>
    simp [hat, collectShard]
  | limits hat =>
    simp only [hat, AsyncLogging.dropBuffers]
    split
    · rfl
    · exact (List.append_nil _).symm
  | writes hat hbuffer => simp [hat, hbuffer]
  | finishes hat hnone => simp [hat, hnone, recycleBuffers]
  | written hat hnone => simp [hat, hnone, keepSpareBuffers]

/-- Only the backend writes and erases, and only `start` puts it somewhere else. -/
theorem frame_of_step {e : Event n} (h : s.step size e = some t) (he : ∀ now, e ≠ .backend now) :
    t.output = s.output ∧ t.erased = s.erased ∧ (e ≠ .start → t.backendAt = s.backendAt) := by
  cases e with
  | append i text =>
    cases h
    exact ⟨rfl, rfl, fun _ => rfl⟩
  | start =>
    simp only [step] at h
    split at h
    · cases h
    · cases h
      refine ⟨?_, ?_, fun hne => absurd rfl hne⟩ <;> (unfold start; split <;> rfl)
  | stop =>
    simp only [step] at h
    split at h
    · cases h
    · cases h
      refine ⟨?_, ?_, fun _ => ?_⟩ <;> (unfold stop; split <;> rfl)
  | stopThread =>
    simp only [step, stopThread] at h
    split at h
    · cases h
    · cases h
    · cases h
      exact ⟨rfl, rfl, fun _ => rfl⟩
    · split at h
      · cases h
        exact ⟨rfl, rfl, fun _ => rfl⟩
      · cases h
  | backend now => exact absurd rfl (he now)

/-- Lines are erased only with a notice. -/
def Noticed (s : AsyncLogging n) : Prop := s.erased ≠ [] → ∃ text, LogRecord.notice text ∈ s.output

theorem Noticed.of_same (hs : Noticed s) (herased : t.erased = s.erased) (houtput : s.output <+: t.output) :
    Noticed t := by
  intro hne
  obtain ⟨text, hmem⟩ := hs (herased ▸ hne)
  exact ⟨text, houtput.subset hmem⟩

theorem Noticed.threadFunc {now : String} (hs : Noticed s) (h : s.threadFunc now = some t) : Noticed t := by
  have houtput : s.output <+: t.output := ⟨_, (output_threadFunc h).symm⟩
  cases backendStep_of_threadFunc h with
  | limits hat =>
    by_cases hmany : s.buffersToWrite.length > 25
    · intro _
      refine ⟨droppedMessage now (s.buffersToWrite.length - 2), ?_⟩
      simp [AsyncLogging.dropBuffers, hmany]
    · refine hs.of_same ?_ houtput
      simp [AsyncLogging.dropBuffers, hmany]
  | _ => exact hs.of_same rfl houtput

theorem Noticed.step {e : Event n} (hs : Noticed s) (h : s.step size e = some t) : Noticed t := by
  by_cases he : ∃ now, e = .backend now
  · obtain ⟨now, rfl⟩ := he
    exact hs.threadFunc h
  · obtain ⟨houtput, herased, -⟩ := frame_of_step h (not_exists.mp he)
    exact hs.of_same herased (houtput ▸ List.prefix_rfl)

end AsyncLogging

namespace LogPipeline
open AsyncLogging LogFile
variable {c : LogFileConfig} {clock : Nat → Int} {p q : LogPipeline n}

theorem effect_append {line : Bytes} {s t : LogFile} (h : appendUnlocked c clock line s = some t) :
    Effect c clock s t := effect_of_step (e := .append line) h

/-- What a step of the backend does to the file, and that it writes what the step gives to it. -/
theorem effect_useOutput {now : String} {output : LogFile} (h : p.useOutput c clock now = some output) :
    Effect c clock p.output output ∧
      output.text = p.output.text ++ (p.logging.emitted now).flatMap LogRecord.bytes := by
  have hsame : Effect c clock p.output p.output := .same ⟨rfl, rfl, Nat.le_refl _, rfl, rfl⟩
  unfold useOutput at h
  unfold emitted
  cases hat : p.logging.backendAt with
  | limit =>
    simp only [hat] at h ⊢
    by_cases hmany : p.logging.buffersToWrite.length > 25
    · rw [if_pos hmany] at h
      refine ⟨effect_append h, ?_⟩
      rw [text_appendUnlocked h, if_pos hmany]
      simp [LogRecord.bytes]
    · rw [if_neg hmany] at h
      cases h
      rw [if_neg hmany]
      exact ⟨hsame, (List.append_nil _).symm⟩
  | write k last =>
    simp only [hat] at h ⊢
    cases hbuffer : p.logging.buffersToWrite[k]? with
    | some buffer =>
      simp only [hbuffer] at h ⊢
      refine ⟨effect_append h, ?_⟩
      rw [text_appendUnlocked h, bytesOf_toStringView]
    | none =>
      simp only [hbuffer] at h ⊢
      refine ⟨effect_of_step h, ?_⟩
      rw [text_step h]
      rfl
  | _ =>
    simp only [hat] at h ⊢
    cases h
    exact ⟨hsame, (List.append_nil _).symm⟩

theorem useOutput_isSome {now : String} (h : p.output.file.isSome = true) : (p.useOutput c clock now).isSome = true := by
  unfold useOutput
  split
  · split
    · exact appendUnlocked_isSome h
    · rfl
  · split
    · exact appendUnlocked_isSome h
    · exact step_isSome h .flush
  all_goals rfl

/-- Between the steps: the file is in order and open while there is a backend, the clock is not behind it, and what was
written to it is what the backend has written. -/
structure Inv (c : LogFileConfig) (clock : Nat → Int) (p : LogPipeline n) : Prop where
  order : InOrder c p.output
  clock : p.output.lastRoll ≤ clock p.output.readings
  isOpen : p.logging.backendAt = .notRunning ∨ p.output.file.isSome = true
  text : p.output.text = p.logging.output.flatMap LogRecord.bytes

section
variable (hstamp : c.stamp = LogFileConfig.utcStamp) (hclock : ClockInRange clock) (hmono : ∀ j k, j ≤ k → clock j ≤ clock k)
include hstamp hclock hmono

omit hstamp hclock in
theorem lastRoll_rollFile {s : LogFile} (hs : s.lastRoll ≤ clock s.readings) :
    (rollFile c clock s).2.lastRoll ≤ clock (rollFile c clock s).2.readings := by
  unfold rollFile
  simp only
  split
  · exact hmono _ _ (Nat.le_succ _)
  · exact Int.le_trans hs (hmono _ _ (Nat.le_add_right _ _))

omit hstamp hclock in
theorem lastRoll_of_effect {s t : LogFile} (hs : s.lastRoll ≤ clock s.readings) (h : Effect c clock s t) :
    t.lastRoll ≤ clock t.readings := by
  cases h with
  | same h => exact h.lastRoll ▸ Int.le_trans hs (hmono _ _ h.readings)
  | rolls mid h ht => exact ht ▸ lastRoll_rollFile hmono (h.lastRoll ▸ Int.le_trans hs (hmono _ _ h.readings))
  | writes file line _ h _ => exact h.lastRoll ▸ Int.le_trans hs (hmono _ _ h.readings)
  | writesRolls file line mid _ h ht => exact ht ▸ lastRoll_rollFile hmono (h.lastRoll ▸ Int.le_trans hs (hmono _ _ h.readings))

theorem inv_openOutput {logging : AsyncLogging n} (hp : Inv c clock p) (houtput : logging.output = p.logging.output) :
    Inv c clock ⟨logging, openOutput c clock p.output⟩ := by
  have hpositive : 0 < clock (p.output.readings + 1) := (hclock _).1
  constructor
  · refine hp.order.rolled_after hstamp hclock rfl rfl ?_ hpositive
    exact Int.le_trans hp.clock (hmono _ _ (Nat.le_succ _))
  · exact lastRoll_rollFile hmono (hclock _).1.le
  · exact .inr (rollFile_isSome (.inr hpositive))
  · rw [houtput, ← hp.text]
    exact text_rollFile _

theorem Inv.backend {now : String} {logging : AsyncLogging n} {output : LogFile} (hp : Inv c clock p)
    (hlogging : p.logging.threadFunc now = some logging) (houtput : p.useOutput c clock now = some output) :
    Inv c clock ⟨logging, output⟩ := by
  obtain ⟨heffect, htext⟩ := effect_useOutput houtput
  have hrunning : p.logging.backendAt ≠ .notRunning := by
    intro hat
    rw [AsyncLogging.threadFunc, hat] at hlogging
    cases hlogging
  constructor
  · exact hp.order.of_effect hstamp hclock heffect
  · exact lastRoll_of_effect hmono hp.clock heffect
  · exact .inr (isSome_of_effect (hp.isOpen.resolve_left hrunning) heffect)
  · rw [htext, hp.text, output_threadFunc hlogging, List.flatMap_append]

theorem Inv.step {e : AsyncLogging.Event n} (hp : Inv c clock p) (h : p.step c clock size e = some q) : Inv c clock q := by
  unfold LogPipeline.step at h
  split at h
  · cases h
  · rename_i logging hlogging
    -- All but the backend and `start` leave the file and the backend as they are.
    have hkept : (∀ now, e ≠ .backend now) → e ≠ .start → Inv c clock { p with logging := logging } := by
      intro hbackend hstart
      obtain ⟨houtput, -, hat⟩ := frame_of_step hlogging hbackend
      exact ⟨hp.order, hp.clock, hat hstart ▸ hp.isOpen, houtput ▸ hp.text⟩
    split at h
    · cases h
      exact hkept (by simp) (by simp)
    · cases h
      exact hkept (by simp) (by simp)
    · cases h
      exact hkept (by simp) (by simp)
    · cases h
      obtain ⟨houtput, -, -⟩ := frame_of_step hlogging (by simp)
      split
      · rename_i hstarted
        have hlogging : logging = p.logging := by
          simp only [AsyncLogging.step, AsyncLogging.start, hstarted] at hlogging
          split at hlogging
          · cases hlogging
          · exact (Option.some.inj hlogging).symm
        exact hlogging ▸ hp
      · exact inv_openOutput hstamp hclock hmono hp houtput
    · split at h
      · cases h
      · rename_i output houtput
        cases h
        exact hp.backend hstamp hclock hmono hlogging houtput

end

/-! ## Runs -/

theorem logging_of_step {e : AsyncLogging.Event n} (h : p.step c clock size e = some q) :
    p.logging.step size e = some q.logging := by
  unfold LogPipeline.step at h
  split at h
  · cases h
  · rename_i logging hlogging
    rw [hlogging]
    split at h
    · cases h
      rfl
    · cases h
      rfl
    · cases h
      rfl
    · cases h
      rfl
    · split at h
      · cases h
      · cases h
        rfl

/-- The file is never missing when the backend uses it. -/
theorem step_of_logging {e : AsyncLogging.Event n} {logging : AsyncLogging n} (hp : Inv c clock p)
    (h : p.logging.step size e = some logging) : ∃ q, p.step c clock size e = some q ∧ q.logging = logging := by
  unfold LogPipeline.step
  rw [h]
  cases e with
  | backend now =>
    have hrunning : p.logging.backendAt ≠ .notRunning := by
      intro hat
      rw [AsyncLogging.step, AsyncLogging.threadFunc, hat] at h
      cases h
    have hopen : (p.useOutput c clock now).isSome = true := useOutput_isSome (hp.isOpen.resolve_left hrunning)
    obtain ⟨output, houtput⟩ := Option.isSome_iff_exists.mp hopen
    exact ⟨⟨logging, output⟩, by simp only [houtput], rfl⟩
  | append _ _ | start | stop | stopThread => exact ⟨_, rfl, rfl⟩

/-- However lines are appended, none longer than a buffer, buffers collected, dropped and written, files rolled and the
logger stopped and started again, if all writes succeed and the clock, between the epoch and the year 10000, is not set
back: the files in the order of their names hold what the backend has written; in it the lines of a shard are in the order
in which they were appended, without gaps but for those erased, for which there is a notice; when `stop` has returned,
every line that was appended before it was called is in the files or was erased. The backend never finds its file
missing. -/
theorem appended_lines_in_files {es : List (AsyncLogging.Event n)} {names : List String}
    (hstamp : c.stamp = LogFileConfig.utcStamp) (hclock : ClockInRange clock) (hmono : ∀ j k, j ≤ k → clock j ≤ clock k)
    (hrun : (system c clock n size).Run (fun p e => LinesFit size p.logging e) {} es p) (hnames : Listing p.output names) :
    names.flatMap p.output.contents = p.logging.output.flatMap LogRecord.bytes ∧
    (∀ i, p.logging.written.filter (·.shard = i) <+: p.logging.kept i) ∧
    (p.logging.erased ≠ [] → ∃ text, LogRecord.notice text ∈ p.logging.output) ∧
    (∀ before, p.logging.controlAt = .stopped before → ∀ l ∈ p.logging.appended, l.number < before → l.text ≠ [] →
      l ∈ p.logging.written ∨ l ∈ p.logging.erased) ∧
    ∀ e t, p.logging.step size e = some t → ∃ q, p.step c clock size e = some q ∧ q.logging = t := by
  obtain ⟨hfile, ⟨hinv, hphases⟩, hnoticed⟩ :
      Inv c clock p ∧ (AsyncLogging.Inv p.logging ∧ Phases p.logging) ∧ Noticed p.logging := by
    refine hrun.invariant
      (I := fun p => Inv c clock p ∧ (AsyncLogging.Inv p.logging ∧ Phases p.logging) ∧ Noticed p.logging) ?_ ?_
    · intro p q e ⟨hfile, hlogging, hnoticed⟩ hfits hstep
      have hlstep := logging_of_step hstep
      exact ⟨hfile.step hstamp hclock hmono hstep, inv_step hlogging hfits hlstep, hnoticed.step hlstep⟩
    · refine ⟨⟨InOrder.init, (hclock 0).1.le, .inl rfl, rfl⟩, ⟨AsyncLogging.Inv.init, Phases.init⟩, ?_⟩
      exact fun hne => absurd rfl hne
  refine ⟨?_, ?_, hnoticed, ?_, ?_⟩
  · rw [hfile.order.read hnames, hfile.text]
  · intro i
    rw [← hinv.stream i, AsyncLogging.stream, List.append_assoc]
    exact List.prefix_append _ _
  · intro before hstopped l hl hnumber htext
    by_cases herased : l ∈ p.logging.erased
    · exact .inr herased
    · have hstream : l ∈ p.logging.stream l.shard := by
        rw [hinv.stream, AsyncLogging.kept, List.mem_filter]
        exact ⟨hl, by simpa using herased⟩
      have hfinished := hphases.stopped before hstopped
      have hflushed := (hphases.flushed before (by rw [hstopped]; rfl)).2 l.shard (by rw [hfinished]; exact l.shard.isLt)
      have hunwritten : p.logging.unwritten = [] := by
        rw [unwritten, hfinished]
        exact hphases.resting (.inr hfinished)
      rw [AsyncLogging.stream, hunwritten, linesOf_nil, List.filter_nil, List.append_nil, List.mem_append] at hstream
      rcases hstream with hwritten | hmemory
      · exact .inl (List.mem_of_mem_filter hwritten)
      · exact absurd (hflushed l hmemory hnumber) htext
  · exact fun e t h => step_of_logging hfile h

/-- Buffers for one character: 27 of them are found and 25 erased, then the logger is stopped and started again. -/
def droppedAndRestarted (i j : Fin n) : List (AsyncLogging.Event n) :=
  .start :: List.replicate 27 (.append i ['b']) ++ List.replicate 9 (.backend "now") ++ [.stop, .stopThread] ++
    List.replicate 5 (.backend "now") ++ [.stopThread, .start, .append j ['e']] ++ List.replicate 7 (.backend "now")

/-- A second for every reading, in the first minute. -/
def firstMinute (k : Nat) : Int := (min k 58 + 1) * nanosPerSecond

def restartedNames : List String := [2, 4, 6, 8, 10, 12].map rollsEachLine.fileName

theorem appended_lines_in_files_restarted :
    ∃ p, (system rollsEachLine firstMinute 2 1).Run (fun p e => LinesFit 1 p.logging e) {} (droppedAndRestarted 0 1) p ∧
      p.logging.erased.length = 25 ∧
      restartedNames.flatMap p.output.contents = p.logging.output.flatMap LogRecord.bytes ∧
      (∀ i, p.logging.written.filter (·.shard = i) <+: p.logging.kept i) ∧
      ∃ text, LogRecord.notice text ∈ p.logging.output := by
  have hreplay : ((system rollsEachLine firstMinute 2 1).checked (fun p e => LinesFit 1 p.logging e) {}
      (droppedAndRestarted 0 1)).any fun p =>
        decide (p.output.rolled = restartedNames.reverse ∧ p.logging.erased.length = 25) := by decide +kernel
  obtain ⟨p, hrun, hlast⟩ := Stepper.Run.of_any hreplay
  obtain ⟨hrolled, herased⟩ := of_decide_eq_true hlast
  have hclock : ClockInRange firstMinute := by
    intro k
    simp only [firstMinute, floorSeconds, nanosPerSecond, LogFileConfig.year10000]
    omega
  have hmono : ∀ j k, j ≤ k → firstMinute j ≤ firstMinute k := by
    intro j k hle
    simp only [firstMinute, nanosPerSecond]
    omega
  have hnames : Listing p.output restartedNames := by
    refine ⟨by decide +kernel, fun name => ?_⟩
    rw [hrolled, List.mem_reverse]
  obtain ⟨hfiles, hshards, hnoticed, -⟩ := appended_lines_in_files rfl hclock hmono hrun hnames
  refine ⟨p, hrun, herased, hfiles, hshards, hnoticed ?_⟩
  intro hnone
  rw [hnone] at herased
  cases herased

end LogPipeline
end Muduo
