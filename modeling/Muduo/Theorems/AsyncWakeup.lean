import Muduo.AsyncWakeup
import Muduo.Lib.Permit

/-! # The contract of `wakeup_`

A `std::binary_semaphore` may be released only while its counter is zero. Every rotation of a buffer leads to a
release, whether or not the backend has come round to acquire the one before. -/

namespace Muduo.AsyncWakeup
open Lib
variable {n size : Nat} {s t : AsyncWakeup n} {e : Event n}

/-- The semaphore, with the threads that are about to release it. -/
def permit (s : AsyncWakeup n) : Permit where
  count := s.wakeup
  owed := s.releasing + s.callback.toNat

/-- The event leads to a release: a rotation, or a request to stop. -/
def wakes (size : Nat) (s : AsyncWakeup n) : Event n → Bool
  | .append i text => needWakeup size i text s.logger
  | .stopThread => s.logger.controlAt.requestsStop
  | _ => false

def Event.releases : Event n → Bool
  | .release | .stopCallback => true
  | _ => false

/-- The backend acquires the semaphore. -/
def acquires (s : AsyncWakeup n) : Event n → Bool
  | .backend _ acquired => s.logger.backendAt = .wait ∧ acquired
  | _ => false

/-- The system with a count of the releases that were decided on and of the acquires. -/
def tallied (n size : Nat) : Stepper (Tally (AsyncWakeup n) Unit) (Event n) :=
  (system n size).tallied (fun _ => wakes size) fun _ => acquires

/-- A buffer is rotated, or the backend asked to stop, only when the backend has acquired the semaphore once for each
rotation and each request before. -/
def WakeupTaken (size : Nat) : Tally (AsyncWakeup n) Unit → Event n → Prop := TakenFirst fun _ => wakes size

instance (t : Tally (AsyncWakeup n) Unit) (e : Event n) : Decidable (WakeupTaken size t e) :=
  inferInstanceAs (Decidable (TakenFirst _ t e))

/-! ## What a step does -/

/-- The semaphore only adds steps to those of the logger. A step leaves as many permits, there or on their way, as it
has found, but for those it decides on or takes. -/
structure StepSpec (size : Nat) (s : AsyncWakeup n) (e : Event n) (t : AsyncWakeup n) : Prop where
  logger : t.logger = s.logger ∨ ∃ e', s.logger.step size e' = some t.logger
  permits : t.permit.total + (s.acquires e).toNat = s.permit.total + (s.wakes size e).toNat
  owed : e.releases = true → 0 < s.permit.owed

theorem step_spec (h : s.step size e = some t) : StepSpec size s e t := by
  cases e with
  | append i text =>
    cases h
    refine ⟨.inr ⟨.append i text, rfl⟩, ?_, Bool.noConfusion⟩
    cases hneed : needWakeup size i text s.logger with
    | false => simp [permit, Permit.total, wakes, acquires, append, hneed]
    | true =>
      simp only [permit, Permit.total, wakes, acquires, append, hneed, if_true, Bool.toNat_true, Bool.toNat_false]
      omega
  | release =>
    simp only [step, release] at h
    split at h
    · cases h
    · rename_i releasing hreleasing
      cases h
      refine ⟨.inl rfl, ?_, fun _ => ?_⟩
      all_goals simp only [permit, Permit.total, wakes, acquires, hreleasing]
      all_goals omega
  | start =>
    obtain ⟨logger, hlogger, rfl⟩ := Option.map_eq_some_iff.mp h
    exact ⟨.inr ⟨.start, hlogger⟩, rfl, Bool.noConfusion⟩
  | stop =>
    obtain ⟨logger, hlogger, rfl⟩ := Option.map_eq_some_iff.mp h
    exact ⟨.inr ⟨.stop, hlogger⟩, rfl, Bool.noConfusion⟩
  | stopThread =>
    simp only [step, stopThread] at h
    split at h
    · cases h
    · rename_i hcallback
      obtain ⟨logger, hlogger, rfl⟩ := Option.map_eq_some_iff.mp h
      rw [Bool.not_eq_true] at hcallback
      refine ⟨.inr ⟨.stopThread, hlogger⟩, ?_, Bool.noConfusion⟩
      simp only [permit, Permit.total, wakes, acquires, hcallback, Bool.toNat_false]
      omega
  | stopCallback =>
    simp only [step, stopCallback] at h
    split at h
    · rename_i hcallback
      cases h
      refine ⟨.inl rfl, ?_, fun _ => ?_⟩
      all_goals simp only [permit, Permit.total, wakes, acquires, hcallback, Bool.toNat_true, Bool.toNat_false]
      all_goals omega
    · cases h
  | backend now acquired =>
    simp only [step, backend] at h
    split at h
    · rename_i hacquires
      split at h
      · cases h
      · rename_i wakeup hwakeup
        obtain ⟨logger, hlogger, rfl⟩ := Option.map_eq_some_iff.mp h
        refine ⟨.inr ⟨.backend now, hlogger⟩, ?_, Bool.noConfusion⟩
        simp only [permit, Permit.total, wakes, acquires, hwakeup, decide_eq_true hacquires, Bool.toNat_true,
          Bool.toNat_false]
        omega
    · rename_i hacquires
      obtain ⟨logger, hlogger, rfl⟩ := Option.map_eq_some_iff.mp h
      refine ⟨.inr ⟨.backend now, hlogger⟩, ?_, Bool.noConfusion⟩
      simp only [permit, Permit.total, wakes, acquires, decide_eq_false hacquires]

/-- Without the steps of the semaphore a run is one of the logger. -/
theorem logger_of_run {cond : AsyncWakeup n → Event n → Prop} {es : List (Event n)}
    (h : (system n size).Run cond s es t) :
    ∃ es', (AsyncLogging.system n size).Run (fun _ _ => True) s.logger es' t.logger := by
  induction h with
  | nil s => exact ⟨[], .nil _⟩
  | cons _ hstep _ ih =>
    obtain ⟨es', hrun⟩ := ih
    rcases (step_spec hstep).logger with hsame | ⟨e', he'⟩
    · exact ⟨es', hsame ▸ hrun⟩
    · exact ⟨e' :: es', .cons trivial he' hrun⟩

/-- If buffers are rotated and the backend is asked to stop only after it has taken the wakeups before, every release
finds the counter of `wakeup_` at zero, and the counter does not exceed one. -/
theorem wakeup_binary {es : List (Event n)} {c : Tally (AsyncWakeup n) Unit}
    (hrun : (tallied n size).Run (WakeupTaken size) { state := {} } es c) :
    c.state.wakeup ≤ 1 ∧ ∀ e t, e.releases = true → c.state.step size e = some t → c.state.wakeup = 0 := by
  have hbalanced : c.Balanced fun _ s => s.permit := by
    refine .run (I := fun _ => True) (fun _ _ => trivial) ?_ hrun trivial fun _ => ⟨Nat.zero_le _, Nat.zero_le _⟩
    intro s t e _ hstep _
    exact Nat.le_of_eq (step_spec hstep).permits
  have htotal := hbalanced.total_le ()
  refine ⟨Permit.count_le htotal, ?_⟩
  intro e t hreleases hstep
  exact Permit.count_of_owed htotal ((step_spec hstep).owed hreleases)

/-- The second line does not fit, its thread wakes the backend, and the third line does not fit after that. -/
def rotatedTwice {n : Nat} (i : Fin n) : List (Event n) :=
  [.start, .append i ['a', 'b', 'c'], .append i ['d', 'e'], .backend "" false, .release, .backend "" true,
    .append i ['f', 'g', 'h']]

theorem rotatedTwice_binary :
    ∃ c, (tallied 2 4).Run (WakeupTaken 4) { state := {} } (rotatedTwice 0) c ∧ c.state.wakeup ≤ 1 ∧
      ∃ t, c.state.step 4 .release = some t ∧ c.state.wakeup = 0 ∧ t.wakeup = 1 := by
  refine Stepper.Run.replay rfl ?_
  intro hrun
  have hbinary := wakeup_binary hrun
  exact ⟨hbinary.1, _, rfl, hbinary.2 .release _ rfl rfl, rfl⟩

/-- A line as long as a buffer leaves no room, wherever it is copied to. -/
theorem avail_append_long (b : FixedBuffer n) {line : LogLine n} (hlong : size ≤ line.text.length) :
    (b.append size line).avail size = 0 := by
  have hlength : (b.append size line).length = b.length + min (b.avail size) line.text.length := by
    simp [FixedBuffer.length, FixedBuffer.append]
  rw [FixedBuffer.avail, hlength]
  simp only [FixedBuffer.avail]
  omega

theorem needWakeup_append_long {s : AsyncLogging n} {i : Fin n} {long text : List Char}
    (hcurrent : (s.shards i).currentBuffer.isSome = true) (hlong : size ≤ long.length) (htext : 0 < text.length) :
    ((s.append size i long).shards i).currentBuffer.isSome = true ∧
      needWakeup size i text (s.append size i long) = true := by
  have hbuffer : ∃ b : FixedBuffer n, ((s.append size i long).shards i).currentBuffer =
      some (b.append size ⟨i, s.appended.length, long⟩) := by
    obtain ⟨current, hcurrent⟩ := Option.isSome_iff_exists.mp hcurrent
    simp only [AsyncLogging.append, Function.update_self, Shard.append, hcurrent]
    split
    · exact ⟨current, rfl⟩
    · split
      · rename_i next hnext
        exact ⟨next, rfl⟩
      · exact ⟨_, rfl⟩
  obtain ⟨b, hb⟩ := hbuffer
  refine ⟨by rw [hb]; rfl, ?_⟩
  have hfull : (b.append size ⟨i, s.appended.length, long⟩).avail size = 0 := avail_append_long b hlong
  rw [needWakeup, hb]
  simp only [hfull, decide_eq_true_eq]
  exact htext

/-- Two rotations by the same line, with the wakeup of the first one left. -/
def burst {n : Nat} (i : Fin n) (line : List Char) : List (Event n) :=
  [.append i line, .append i line, .release, .append i line]

theorem run_burst {line : List Char} (hlen : line.length = size) (hpos : 0 < line.length) :
    ∃ s, (system 2 size).Run (fun _ _ => True) {} (burst 0 line) s ∧ s.wakeup = 1 ∧
      ∃ t, s.step size .release = some t ∧ t.wakeup = 2 := by
  let first : AsyncWakeup 2 := append size 0 line {}
  let second := append size 0 line first
  let third : AsyncWakeup 2 := { second with releasing := 0, wakeup := 1 }
  let last := append size 0 line third
  have hempty : needWakeup size (0 : Fin 2) line {} = false := by
    simp [needWakeup, FixedBuffer.avail, FixedBuffer.length, hlen]
  obtain ⟨hfirst, hrotates⟩ := needWakeup_append_long (s := {}) (i := (0 : Fin 2)) rfl (Nat.le_of_eq hlen.symm) hpos
  obtain ⟨-, hrotates'⟩ := needWakeup_append_long hfirst (Nat.le_of_eq hlen.symm) hpos
  have hreleasing : second.releasing = 1 := by
    simp only [second, first, append, hempty, hrotates]
    rfl
  have hrelease : second.release = some third := by
    simp only [release, hreleasing]
    rfl
  have hlast : last.releasing = 1 := by
    simp only [last, append, third, second, first, hrotates']
    rfl
  have hrelease' : last.release = some { last with releasing := 0, wakeup := 2 } := by
    simp only [release, hlast]
    rfl
  refine ⟨last, ?_, rfl, _, hrelease', rfl⟩
  exact .cons trivial rfl (.cons trivial rfl (.cons trivial hrelease (.cons trivial rfl (.nil _))))

theorem wakeup_released_twice :
    ∃ s, (system 2 kLargeBuffer).Run (fun _ _ => True) {} (burst 0 (List.replicate kLargeBuffer 'x')) s ∧ s.wakeup = 1 ∧
      ∃ t, s.step kLargeBuffer .release = some t ∧ t.wakeup = 2 := by
  have hlen : (List.replicate kLargeBuffer 'x').length = kLargeBuffer := List.length_replicate
  have hpos : 0 < kLargeBuffer := by decide
  exact run_burst hlen (hlen.symm ▸ hpos)

end Muduo.AsyncWakeup
