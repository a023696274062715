import Mathlib.Data.List.Nodup
import Muduo.AsyncLogging

/-! # Log lines

Each shard is a stream of lines: written, about to be written, in its buffers, in its current buffer. `append`
extends the stream, the backend moves lines along it, and only the branch for too many buffers takes lines out. -/

namespace Muduo
open Lib
variable {n size : Nat} {i : Fin n}

/-! ## Buffers and shards -/

namespace FixedBuffer

theorem append_lines {b : FixedBuffer n} {line : LogLine n} (hfits : line.text.length ≤ b.avail size) :
    (b.append size line).lines = b.lines ++ [line] := by
  rw [append, List.take_of_length_le hfits]

theorem avail_of_empty {b : FixedBuffer n} (hempty : b.lines = []) : b.avail size = size := by
  simp [avail, length, hempty]

theorem text_of_length_eq_zero {b : FixedBuffer n} (hlength : b.length = 0) : ∀ l ∈ b.lines, l.text = [] := by
  rw [length, List.length_eq_zero_iff, List.flatMap_eq_nil_iff] at hlength
  exact hlength

end FixedBuffer

theorem FreeBuffers.acquireBuffer_empty (free : FreeBuffers n) : free.acquireBuffer.1.lines = [] := by
  unfold acquireBuffer
  split <;> rfl

theorem FreeBuffers.spareBuffer_empty (free : FreeBuffers n) : free.spareBuffer.1.lines = [] := by
  unfold spareBuffer
  split
  · rfl
  · exact free.acquireBuffer_empty

def linesOf (buffers : List (FixedBuffer n)) : List (LogLine n) := buffers.flatMap FixedBuffer.lines

@[simp] theorem linesOf_nil : linesOf ([] : List (FixedBuffer n)) = [] := rfl

@[simp] theorem linesOf_append (first second : List (FixedBuffer n)) :
    linesOf (first ++ second) = linesOf first ++ linesOf second :=
  List.flatMap_append

@[simp] theorem linesOf_singleton (b : FixedBuffer n) : linesOf [b] = b.lines := by
  simp [linesOf]

namespace Shard
variable {shard : Shard n} {free : FreeBuffers n}

/-- The lines of the current buffer. -/
def current (shard : Shard n) : List (LogLine n) := shard.currentBuffer.elim [] FixedBuffer.lines

/-- The lines of a shard, in the order in which they will be written. -/
def lines (shard : Shard n) : List (LogLine n) := linesOf shard.buffers ++ shard.current

structure Ok (i : Fin n) (shard : Shard n) : Prop where
  current : shard.currentBuffer.isSome = true
  next : ∀ b, shard.nextBuffer = some b → b.lines = []
  own : ∀ l ∈ shard.lines, l.shard = i

theorem Ok.init : Ok i {} where
  current := rfl
  next := by
    intro b hb
    cases hb
    rfl
  own := by
    intro l hl
    cases hl

theorem lines_append {line : LogLine n} (free : FreeBuffers n) (hok : shard.Ok i) (hfits : line.text.length ≤ size) :
    (shard.append size line free).1.lines = shard.lines ++ [line] ∧
      (shard.append size line free).1.currentBuffer.isSome = true ∧
      ∀ b, (shard.append size line free).1.nextBuffer = some b → b.lines = [] := by
  obtain ⟨b, hb⟩ := Option.isSome_iff_exists.mp hok.current
  unfold append
  simp only [hb]
  split
  · rename_i havail
    refine ⟨?_, rfl, hok.next⟩
    simp [lines, current, hb, FixedBuffer.append_lines havail]
  · split
    · rename_i next hnext
      have hempty := hok.next next hnext
      have havail : line.text.length ≤ next.avail size := by rwa [FixedBuffer.avail_of_empty hempty]
      refine ⟨?_, rfl, ?_⟩
      · simp [lines, current, hb, FixedBuffer.append_lines havail, hempty]
      · intro b' hb'
        cases hb'
    · have hempty := free.acquireBuffer_empty
      have havail : line.text.length ≤ free.acquireBuffer.1.avail size := by rwa [FixedBuffer.avail_of_empty hempty]
      refine ⟨?_, rfl, ?_⟩
      · simp [lines, current, hb, FixedBuffer.append_lines havail, hempty]
      · intro b' hb'
        cases hb'

theorem Ok.append {line : LogLine n} (hok : shard.Ok i) (hfits : line.text.length ≤ size) (hshard : line.shard = i) :
    (shard.append size line free).1.Ok i := by
  obtain ⟨hlines, hcurrent, hnext⟩ := lines_append free hok hfits
  refine ⟨hcurrent, hnext, ?_⟩
  rw [hlines]
  exact List.forall_mem_append.mpr ⟨hok.own, List.forall_mem_singleton.mpr hshard⟩

theorem lines_rotate (free : FreeBuffers n) (hok : shard.Ok i) :
    (shard.rotate free).1.lines = shard.lines ∧ (shard.rotate free).1.currentBuffer.isSome = true ∧
      (∀ b, (shard.rotate free).1.nextBuffer = some b → b.lines = []) ∧
      ∀ l ∈ (shard.rotate free).1.current, l.text = [] := by
  obtain ⟨b, hb⟩ := Option.isSome_iff_exists.mp hok.current
  unfold rotate
  simp only [hb]
  split
  · split
    · rename_i next hnext
      have hempty := hok.next next hnext
      refine ⟨?_, rfl, ?_, ?_⟩
      · simp [lines, current, hb, hempty]
      · intro b' hb'
        cases hb'
      · simp [current, hempty]
    · have hempty := free.spareBuffer_empty
      refine ⟨?_, rfl, ?_, ?_⟩
      · simp [lines, current, hb, hempty]
      · intro b' hb'
        cases hb'
      · simp [current, hempty]
  · rename_i hlength
    refine ⟨rfl, hok.current, hok.next, ?_⟩
    rw [current, hb]
    exact FixedBuffer.text_of_length_eq_zero (Nat.eq_zero_of_not_pos hlength)

theorem replenish_same (shard : Shard n) (free : FreeBuffers n) :
    (shard.replenish free).1.currentBuffer = shard.currentBuffer ∧ (shard.replenish free).1.buffers = shard.buffers := by
  unfold replenish
  split <;> exact ⟨rfl, rfl⟩

theorem replenish_next (hnext : ∀ b, shard.nextBuffer = some b → b.lines = []) :
    ∀ b, (shard.replenish free).1.nextBuffer = some b → b.lines = [] := by
  unfold replenish
  split
  · exact hnext
  · intro b hb
    cases hb
    exact free.spareBuffer_empty

/-- A collected shard has the same lines, and none with a text in its current buffer. -/
theorem lines_collect (free : FreeBuffers n) (hok : shard.Ok i) :
    (shard.collect free).1.lines = shard.lines ∧ (shard.collect free).1.Ok i ∧
      ∀ l ∈ (shard.collect free).1.current, l.text = [] := by
  obtain ⟨hlines, hcurrent, hnext, htext⟩ := lines_rotate free hok
  obtain ⟨hsame, hbuffers⟩ := replenish_same (shard.rotate free).1 (shard.rotate free).2
  have hcollect : (shard.collect free).1.lines = shard.lines := by
    rw [← hlines, lines, lines, current, current, collect, hsame, hbuffers]
  refine ⟨hcollect, ⟨?_, replenish_next hnext, ?_⟩, ?_⟩
  · rw [collect, hsame]
    exact hcurrent
  · rw [hcollect]
    exact hok.own
  · rw [current, collect, hsame]
    exact htext

end Shard

/-! ## The stream of a shard -/

def LogRecord.line? : LogRecord n → Option (LogLine n)
  | .line l => some l
  | .notice _ => none

namespace AsyncLogging
variable {s t : AsyncLogging n}

/-- The lines in the log file. -/
def written (s : AsyncLogging n) : List (LogLine n) := s.output.filterMap LogRecord.line?

/-- What of `buffersToWrite` is still to be written. -/
def unwritten (s : AsyncLogging n) : List (FixedBuffer n) :=
  match s.backendAt with
  | .write k _ => s.buffersToWrite.drop k
  | _ => s.buffersToWrite

/-- The lines of a shard: in the log file, in `buffersToWrite`, in the buffers of the shard, in its current buffer. -/
def stream (i : Fin n) (s : AsyncLogging n) : List (LogLine n) :=
  s.written.filter (·.shard = i) ++ (linesOf s.unwritten).filter (·.shard = i) ++ (s.shards i).lines

/-- The lines that were appended to a shard and not erased. -/
def kept (i : Fin n) (s : AsyncLogging n) : List (LogLine n) :=
  s.appended.filter fun l => l.shard = i ∧ l ∉ s.erased

structure Inv (s : AsyncLogging n) : Prop where
  shards : ∀ i, (s.shards i).Ok i
  stream : ∀ i, s.stream i = s.kept i
  numbers : ∀ l ∈ s.appended, l.number < s.appended.length
  nodup : s.appended.Nodup
  erased : ∀ l ∈ s.erased, l ∈ s.appended

theorem Inv.init : Inv ({} : AsyncLogging n) where
  shards _ := Shard.Ok.init
  stream _ := rfl
  numbers _ hl := by cases hl
  nodup := List.nodup_nil
  erased _ hl := by cases hl

/-- What moves lines from `buffersToWrite` to the file keeps the streams. -/
theorem Inv.of_moved (hs : Inv s) (hshards : t.shards = s.shards) (happended : t.appended = s.appended)
    (herased : t.erased = s.erased) (hmoved : t.written ++ linesOf t.unwritten = s.written ++ linesOf s.unwritten) :
    Inv t where
  shards := by
    rw [hshards]
    exact hs.shards
  stream := by
    intro i
    rw [AsyncLogging.stream, ← List.filter_append, hmoved, List.filter_append, hshards, kept, happended, herased]
    exact hs.stream i
  numbers := by
    rw [happended]
    exact hs.numbers
  nodup := by
    rw [happended]
    exact hs.nodup
  erased := by
    rw [happended, herased]
    exact hs.erased

theorem Inv.append {text : List Char} (hs : Inv s) (hfits : text.length ≤ size) : Inv (s.append size i text) := by
  have hfresh : (⟨i, s.appended.length, text⟩ : LogLine n) ∉ s.appended :=
    fun hmem => absurd (hs.numbers _ hmem) (Nat.lt_irrefl _)
  have hkept : (⟨i, s.appended.length, text⟩ : LogLine n) ∉ s.erased := fun hmem => hfresh (hs.erased _ hmem)
  refine ⟨?_, ?_, ?_, ?_, ?_⟩
  · intro j
    by_cases hij : j = i
    · subst hij
      simp only [AsyncLogging.append, Function.update_self]
      exact (hs.shards j).append hfits rfl
    · simp only [AsyncLogging.append, Function.update_of_ne hij]
      exact hs.shards j
  · intro j
    have hstream := hs.stream j
    by_cases hij : j = i
    · subst hij
      have hlines : ((s.append size j text).shards j).lines =
          (s.shards j).lines ++ [⟨j, s.appended.length, text⟩] := by
        simp only [AsyncLogging.append, Function.update_self]
        exact (Shard.lines_append s.free (hs.shards j) hfits).1
      have hkept' : (s.append size j text).kept j = s.kept j ++ [⟨j, s.appended.length, text⟩] := by
        refine (List.filter_append _ _).trans ?_
        have herased : (s.append size j text).erased = s.erased := rfl
        rw [List.filter_cons_of_pos (by simp [herased, hkept]), List.filter_nil]
        rfl
      rw [hkept', ← hstream, AsyncLogging.stream, hlines, ← List.append_assoc]
      rfl
    · have hlines : ((s.append size i text).shards j).lines = (s.shards j).lines := by
        simp only [AsyncLogging.append, Function.update_of_ne hij]
      have hkept' : (s.append size i text).kept j = s.kept j := by
        refine (List.filter_append _ _).trans ?_
        rw [List.filter_cons_of_neg (by simp [Ne.symm hij]), List.filter_nil, List.append_nil]
        rfl
      rw [hkept', ← hstream, AsyncLogging.stream, hlines]
      rfl
  · intro l hl
    have hlength : (s.append size i text).appended.length = s.appended.length + 1 := List.length_append
    rw [hlength]
    rcases List.mem_append.mp hl with hl | hl
    · exact Nat.lt_succ_of_lt (hs.numbers l hl)
    · obtain rfl := List.mem_singleton.mp hl
      exact Nat.lt_succ_self _
  · refine List.nodup_append.mpr ⟨hs.nodup, List.nodup_singleton _, ?_⟩
    intro l hl l' hl' heq
    subst heq
    obtain rfl := List.mem_singleton.mp hl'
    exact hfresh hl
  · intro l hl
    exact List.mem_append_left _ (hs.erased l hl)

theorem Inv.collectShard {at' : BackendAt} (hs : Inv s) (hat : s.unwritten = s.buffersToWrite)
    (hat' : ∀ k last, at' ≠ .write k last) : Inv { s.collectShard i with backendAt := at' } := by
  obtain ⟨hlines, hok, -⟩ := Shard.lines_collect s.free (hs.shards i)
  have hunwritten : ({ s.collectShard i with backendAt := at' } : AsyncLogging n).unwritten =
      s.unwritten ++ ((s.shards i).collect s.free).1.buffers := by
    rw [hat]
    unfold unwritten
    split
    · rename_i k last hwrite
      exact absurd hwrite (hat' k last)
    · rfl
  refine ⟨?_, ?_, hs.numbers, hs.nodup, hs.erased⟩
  · intro j
    by_cases hij : j = i
    · subst hij
      simp only [AsyncLogging.collectShard, Function.update_self]
      refine ⟨hok.current, hok.next, ?_⟩
      intro l hl
      exact hok.own l (List.mem_append_right _ hl)
    · simp only [AsyncLogging.collectShard, Function.update_of_ne hij]
      exact hs.shards j
  · intro j
    have hstream := hs.stream j
    have hbuffers : ∀ l ∈ linesOf ((s.shards i).collect s.free).1.buffers, l.shard = i :=
      fun l hl => hok.own l (List.mem_append_left _ hl)
    refine Eq.trans ?_ hstream
    rw [AsyncLogging.stream, hunwritten, linesOf_append, List.filter_append]
    by_cases hij : j = i
    · subst hij
      have hall : (linesOf ((s.shards j).collect s.free).1.buffers).filter (·.shard = j) =
          linesOf ((s.shards j).collect s.free).1.buffers :=
        List.filter_eq_self.mpr fun l hl => decide_eq_true (hbuffers l hl)
      rw [hall, AsyncLogging.stream, ← hlines]
      simp [AsyncLogging.collectShard, Shard.lines, Shard.current, written]
    · have hnone : (linesOf ((s.shards i).collect s.free).1.buffers).filter (·.shard = j) = [] := by
        refine List.filter_eq_nil_iff.mpr ?_
        intro l hl
        rw [hbuffers l hl, decide_eq_true_eq]
        exact Ne.symm hij
      rw [hnone, List.append_nil, AsyncLogging.stream]
      simp only [AsyncLogging.collectShard, Function.update_of_ne hij]
      rfl

/-- Taking the middle part out of a list without repetitions. -/
theorem filter_not_mem_middle {α : Type} [DecidableEq α] {a g b : List α} (h : (a ++ g ++ b).Nodup) :
    (a ++ g ++ b).filter (· ∉ g) = a ++ b := by
  obtain ⟨hag, -, hb⟩ := List.nodup_append.mp h
  obtain ⟨-, -, ha⟩ := List.nodup_append.mp hag
  have hfirst : a.filter (· ∉ g) = a := by
    refine List.filter_eq_self.mpr ?_
    intro x hx
    exact decide_eq_true fun hg => ha x hx x hg rfl
  have hmiddle : g.filter (· ∉ g) = [] := by
    refine List.filter_eq_nil_iff.mpr ?_
    intro x hx
    simpa using hx
  have hlast : b.filter (· ∉ g) = b := by
    refine List.filter_eq_self.mpr ?_
    intro x hx
    exact decide_eq_true fun hg => hb x (List.mem_append_right _ hg) x hx rfl
  rw [List.filter_append, List.filter_append, hfirst, hmiddle, hlast, List.append_nil]

theorem Inv.nodup_stream (hs : Inv s) (i : Fin n) : (s.stream i).Nodup := by
  rw [hs.stream]
  exact hs.nodup.filter _

theorem Inv.appended_of_mem_unwritten (hs : Inv s) {l : LogLine n} (hl : l ∈ linesOf s.unwritten) : l ∈ s.appended := by
  have hmem : l ∈ s.stream l.shard := by
    refine List.mem_append_left _ (List.mem_append_right _ (List.mem_filter.mpr ⟨hl, ?_⟩))
    exact decide_eq_true rfl
  rw [hs.stream] at hmem
  exact List.mem_of_mem_filter hmem

theorem Inv.dropBuffers {now : String} (hs : Inv s) (hat : s.unwritten = s.buffersToWrite) :
    Inv { s.dropBuffers now with backendAt := .write 0 false } := by
  unfold AsyncLogging.dropBuffers
  split
  · have hsplit : linesOf s.unwritten = linesOf (s.buffersToWrite.take 2) ++ linesOf (s.buffersToWrite.drop 2) := by
      rw [hat, ← linesOf_append, List.take_append_drop]
    refine ⟨hs.shards, ?_, hs.numbers, hs.nodup, ?_⟩
    · intro i
      have hstream : s.stream i = (s.written.filter (·.shard = i) ++ (linesOf (s.buffersToWrite.take 2)).filter (·.shard = i)) ++
          (linesOf (s.buffersToWrite.drop 2)).filter (·.shard = i) ++ (s.shards i).lines := by
        rw [AsyncLogging.stream, hsplit, List.filter_append, ← List.append_assoc]
      have hnodup := hs.nodup_stream i
      rw [hstream] at hnodup
      -- The lines of the shard among those that are erased, and no others, leave its stream.
      have hkept : s.appended.filter (fun l => l.shard = i ∧ l ∉ s.erased ++ linesOf (s.buffersToWrite.drop 2)) =
          (s.stream i).filter (· ∉ (linesOf (s.buffersToWrite.drop 2)).filter (·.shard = i)) := by
        rw [hs.stream, kept, List.filter_filter]
        refine List.filter_congr ?_
        intro l _
        by_cases hshard : l.shard = i <;> simp [hshard, Bool.and_comm]
      refine Eq.trans ?_ hkept.symm
      rw [hstream, filter_not_mem_middle hnodup]
      simp [AsyncLogging.stream, written, unwritten, LogRecord.line?]
    · intro l hl
      rcases List.mem_append.mp hl with hl | hl
      · exact hs.erased l hl
      · refine hs.appended_of_mem_unwritten ?_
        rw [hsplit]
        exact List.mem_append_right _ hl
  · exact hs.of_moved rfl rfl rfl (by rw [hat]; rfl)

theorem Inv.goTo {dest : BackendAt} (hs : Inv s) (hat : s.unwritten = s.buffersToWrite)
    (hdest : ({ s with backendAt := dest } : AsyncLogging n).unwritten = s.buffersToWrite) :
    Inv { s with backendAt := dest } :=
  hs.of_moved rfl rfl rfl (by rw [hdest, hat]; rfl)

/-- The steps of the backend. -/
inductive BackendStep (now : String) (s : AsyncLogging n) : AsyncLogging n → Prop where
  | stopSeen (hat : s.backendAt = .test) (hrequested : s.stopRequested = true) :
    BackendStep now s { s with backendAt := .collect 0 true }
  | waits (hat : s.backendAt = .test) : BackendStep now s { s with backendAt := .wait }
  | wakes (hat : s.backendAt = .wait) : BackendStep now s { s with backendAt := .collect 0 false }
  | collects {i : Fin n} {last : Bool} (hat : s.backendAt = .collect i last) :
    BackendStep now s { s.collectShard i with backendAt := .collect (i + 1) last }
  | lastCollected {i : Nat} (hat : s.backendAt = .collect i true) (hi : n ≤ i) :
    BackendStep now s { s with backendAt := .write 0 true }
  | collected {i : Nat} (hat : s.backendAt = .collect i false) :
    BackendStep now s { s with backendAt := if s.buffersToWrite.isEmpty then .test else .limit }
  | limits (hat : s.backendAt = .limit) : BackendStep now s { s.dropBuffers now with backendAt := .write 0 false }
  | writes {k : Nat} {last : Bool} {buffer : FixedBuffer n} (hat : s.backendAt = .write k last)
      (hbuffer : s.buffersToWrite[k]? = some buffer) :
    BackendStep now s { s with output := s.output ++ buffer.lines.map .line, backendAt := .write (k + 1) last }
  | finishes {k : Nat} (hat : s.backendAt = .write k true) (hnone : s.buffersToWrite[k]? = none) :
    BackendStep now s { s.recycleBuffers with backendAt := .finished }
  | written {k : Nat} (hat : s.backendAt = .write k false) (hnone : s.buffersToWrite[k]? = none) :
    BackendStep now s { s.keepSpareBuffers with backendAt := .test }

theorem backendStep_of_threadFunc {now : String} (h : s.threadFunc now = some t) : BackendStep now s t := by
  unfold AsyncLogging.threadFunc at h
  split at h
  · cases h
  · cases h
  · rename_i hat
    cases h
    split
    · rename_i hrequested
      exact .stopSeen hat hrequested
    · exact .waits hat
  · rename_i hat
    cases h
    exact .wakes hat
  · rename_i i last hat
    split at h
    · cases h
      exact .collects (i := ⟨i, _⟩) hat
    · rename_i hi
      cases last with
      | true =>
        cases h
        exact .lastCollected hat (Nat.le_of_not_lt hi)
      | false =>
        cases h
        exact .collected hat
  · rename_i hat
    cases h
    exact .limits hat
  · rename_i k last hat
    split at h
    · rename_i buffer hbuffer
      cases h
      exact .writes hat hbuffer
    · rename_i hnone
      cases last with
      | true =>
        cases h
        exact .finishes hat hnone
      | false =>
        cases h
        exact .written hat hnone

theorem Inv.written_buffer {k : Nat} {last : Bool} {buffer : FixedBuffer n} (hs : Inv s)
    (hat : s.backendAt = .write k last) (hbuffer : s.buffersToWrite[k]? = some buffer) :
    Inv { s with output := s.output ++ buffer.lines.map .line, backendAt := .write (k + 1) last } := by
  refine hs.of_moved rfl rfl rfl ?_
  have hunwritten : s.unwritten = s.buffersToWrite.drop k := by simp [unwritten, hat]
  have hdrop : s.buffersToWrite.drop k = buffer :: s.buffersToWrite.drop (k + 1) := by
    obtain ⟨hk, rfl⟩ := List.getElem?_eq_some_iff.mp hbuffer
    exact List.drop_eq_getElem_cons hk
  have hwritten : (s.output ++ buffer.lines.map LogRecord.line).filterMap LogRecord.line? = s.written ++ buffer.lines := by
    simp [written, LogRecord.line?, Function.comp_def]
  have hlines : linesOf (buffer :: s.buffersToWrite.drop (k + 1)) =
      buffer.lines ++ linesOf (s.buffersToWrite.drop (k + 1)) := List.flatMap_cons
  rw [hunwritten, hdrop, hlines, ← List.append_assoc, ← hwritten]
  rfl

theorem unwritten_of_none {k : Nat} {last : Bool} (hat : s.backendAt = .write k last)
    (hnone : s.buffersToWrite[k]? = none) : s.unwritten = [] := by
  have hunwritten : s.unwritten = s.buffersToWrite.drop k := by simp [unwritten, hat]
  rw [hunwritten]
  exact List.drop_eq_nil_of_le (List.getElem?_eq_none_iff.mp hnone)

theorem Inv.threadFunc {now : String} (hs : Inv s) (h : s.threadFunc now = some t) : Inv t := by
  cases backendStep_of_threadFunc h with
  | stopSeen hat _ => exact hs.goTo (by simp [unwritten, hat]) rfl
  | waits hat => exact hs.goTo (by simp [unwritten, hat]) rfl
  | wakes hat => exact hs.goTo (by simp [unwritten, hat]) rfl
  | collects hat => exact hs.collectShard (by simp [unwritten, hat]) fun _ _ => BackendAt.noConfusion
  | lastCollected hat _ => exact hs.goTo (by simp [unwritten, hat]) rfl
  | collected hat =>
    refine hs.goTo (by simp [unwritten, hat]) ?_
    cases s.buffersToWrite.isEmpty <;> rfl
  | limits hat => exact hs.dropBuffers (by simp [unwritten, hat])
  | writes hat hbuffer => exact hs.written_buffer hat hbuffer
  | finishes hat hnone => exact hs.of_moved rfl rfl rfl (by rw [unwritten_of_none hat hnone]; rfl)
  | written hat hnone => exact hs.of_moved rfl rfl rfl (by rw [unwritten_of_none hat hnone]; rfl)

/-! ## Stopping -/

end AsyncLogging

/-- No line that was appended before is left in the shard, but empty ones. -/
def Shard.Flushed (before : Nat) (shard : Shard n) : Prop := ∀ l ∈ shard.lines, l.number < before → l.text = []

/-- The backend has seen the request to stop. -/
def BackendAt.isLast : BackendAt → Bool
  | .collect _ last | .write _ last => last
  | .finished => true
  | .notRunning | .test | .wait | .limit => false

/-- So many shards were collected for the last time. -/
def BackendAt.flushedShards (n : Nat) : BackendAt → Nat
  | .collect i true => i
  | .write _ true | .finished => n
  | _ => 0

/-- When the `stop` that has requested the backend to stop was called. -/
def ControlAt.stopCalled : ControlAt → Option Nat
  | .join before | .stopped before => some before
  | .idle | .requestStop _ => none

theorem BackendAt.flushedShards_eq_zero {dest : BackendAt} (h : dest.isLast = false) : dest.flushedShards n = 0 := by
  cases dest with
  | collect i last =>
    cases last with
    | false => rfl
    | true => cases h
  | write k last =>
    cases last with
    | false => rfl
    | true => cases h
  | finished => cases h
  | _ => rfl

namespace AsyncLogging
variable {s t : AsyncLogging n}

structure Phases (s : AsyncLogging n) : Prop where
  resting : s.backendAt = .notRunning ∨ s.backendAt = .finished → s.buffersToWrite = []
  unstarted : s.controlAt = .idle → s.started = false → s.backendAt = .notRunning
  halted : s.controlAt ≠ .idle → s.started = false
  stopped : ∀ before, s.controlAt = .stopped before → s.backendAt = .finished
  notLast : s.stopRequested = false → s.backendAt.isLast = false
  unrequested : s.controlAt.stopCalled = none → s.stopRequested = false
  requested : ∀ before, s.controlAt = .requestStop before → before ≤ s.appended.length
  flushed : ∀ before, s.controlAt.stopCalled = some before →
    before ≤ s.appended.length ∧ ∀ j : Fin n, j < s.backendAt.flushedShards n → (s.shards j).Flushed before

theorem Phases.init : Phases ({} : AsyncLogging n) where
  resting _ := rfl
  unstarted _ _ := rfl
  halted h := absurd rfl h
  stopped _ h := by cases h
  notLast _ := rfl
  unrequested _ := rfl
  requested _ h := by cases h
  flushed _ h := by cases h

theorem Phases.append {text : List Char} (hs : Phases s) (hok : (s.shards i).Ok i) (hfits : text.length ≤ size) :
    Phases (s.append size i text) := by
  have hlength : s.appended.length ≤ (s.append size i text).appended.length := by
    simp [AsyncLogging.append]
  refine ⟨hs.resting, hs.unstarted, hs.halted, hs.stopped, hs.notLast, hs.unrequested, ?_, ?_⟩
  · intro before hbefore
    exact Nat.le_trans (hs.requested before hbefore) hlength
  · intro before hbefore
    obtain ⟨hle, hflushed⟩ := hs.flushed before hbefore
    refine ⟨Nat.le_trans hle hlength, ?_⟩
    intro j hj
    by_cases hij : j = i
    · subst hij
      simp only [AsyncLogging.append, Function.update_self, Shard.Flushed]
      rw [(Shard.lines_append s.free hok hfits).1]
      refine List.forall_mem_append.mpr ⟨hflushed j hj, List.forall_mem_singleton.mpr ?_⟩
      intro hnumber
      exact absurd hnumber (Nat.not_lt.mpr hle)
    · simp only [AsyncLogging.append, Function.update_of_ne hij]
      exact hflushed j hj

theorem Phases.start (hs : Phases s) : Phases s.start := by
  unfold AsyncLogging.start
  split
  · exact hs
  · refine ⟨?_, ?_, ?_, ?_, ?_, ?_, ?_, ?_⟩
    · intro hrest
      rcases hrest with hrest | hrest <;> cases hrest
    · intro _ hstarted
      cases hstarted
    · intro hidle
      exact absurd rfl hidle
    · intro before hstopped
      cases hstopped
    · intro _
      rfl
    · intro _
      rfl
    · intro before hrequest
      cases hrequest
    · intro before hcalled
      cases hcalled

theorem Phases.stop (hs : Phases s) : Phases s.stop := by
  unfold AsyncLogging.stop
  split
  · rename_i hstarted
    have hidle : s.controlAt = .idle := by
      by_contra hne
      exact absurd (hs.halted hne) (by simp [hstarted])
    have hrequested : s.stopRequested = false := hs.unrequested (by rw [hidle]; rfl)
    refine ⟨hs.resting, ?_, fun _ => rfl, ?_, hs.notLast, fun _ => hrequested, ?_, ?_⟩
    · intro hcontrol
      cases hcontrol
    · intro before hstopped
      cases hstopped
    · intro before hrequest
      cases hrequest
      exact Nat.le_refl _
    · intro before hcalled
      cases hcalled
  · exact hs

theorem Phases.stopThread (hs : Phases s) (h : s.stopThread = some t) : Phases t := by
  unfold AsyncLogging.stopThread at h
  cases hcontrol : s.controlAt with
  | idle =>
    simp only [hcontrol] at h
    cases h
  | stopped before =>
    simp only [hcontrol] at h
    cases h
  | requestStop before =>
    simp only [hcontrol, Option.some.injEq] at h
    subst h
    have hrequested : s.stopRequested = false := hs.unrequested (by rw [hcontrol]; rfl)
    have hzero : s.backendAt.flushedShards n = 0 := BackendAt.flushedShards_eq_zero (hs.notLast hrequested)
    refine ⟨hs.resting, ?_, fun _ => hs.halted (by simp [hcontrol]), ?_, ?_, ?_, ?_, ?_⟩
    · intro hidle
      cases hidle
    · intro before' hstopped
      cases hstopped
    · intro hfalse
      cases hfalse
    · intro hnone
      cases hnone
    · intro before' hrequest
      cases hrequest
    · intro before' hcalled
      cases hcalled
      refine ⟨hs.requested before hcontrol, ?_⟩
      intro j hj
      rw [hzero] at hj
      cases hj
  | join before =>
    simp only [hcontrol] at h
    split at h
    · rename_i hfinished
      cases h
      refine ⟨hs.resting, ?_, fun _ => hs.halted (by simp [hcontrol]), fun _ _ => hfinished, hs.notLast, ?_, ?_, ?_⟩
      · intro hidle
        cases hidle
      · intro hnone
        cases hnone
      · intro before' hrequest
        cases hrequest
      · intro before' hcalled
        cases hcalled
        exact hs.flushed before (by rw [hcontrol]; rfl)
    · cases h

/-- A step of the backend that leaves the shards as they are. -/
theorem Phases.of_same (hs : Phases s) (hshards : t.shards = s.shards) (happended : t.appended = s.appended)
    (hcontrol : t.controlAt = s.controlAt) (hstarted : t.started = s.started)
    (hrequested : t.stopRequested = s.stopRequested) (hruns : s.backendAt ≠ .notRunning ∧ s.backendAt ≠ .finished)
    (hresting : t.backendAt = .notRunning ∨ t.backendAt = .finished → t.buffersToWrite = [])
    (hlast : t.backendAt.isLast = true → s.stopRequested = true)
    (hflushed : ∀ j : Fin n, j < t.backendAt.flushedShards n → j < s.backendAt.flushedShards n) : Phases t where
  resting := hresting
  unstarted := by
    rw [hcontrol, hstarted]
    intro hidle hfalse
    exact absurd (hs.unstarted hidle hfalse) hruns.1
  halted := by
    rw [hcontrol, hstarted]
    exact hs.halted
  stopped := by
    rw [hcontrol]
    intro before hstopped
    exact absurd (hs.stopped before hstopped) hruns.2
  notLast := by
    rw [hrequested]
    intro hfalse
    cases hisLast : t.backendAt.isLast with
    | false => rfl
    | true => exact absurd ((hlast hisLast).symm.trans hfalse) Bool.noConfusion
  unrequested := by
    rw [hcontrol, hrequested]
    exact hs.unrequested
  requested := by
    rw [hcontrol, happended]
    exact hs.requested
  flushed := by
    rw [hcontrol, happended, hshards]
    intro before hcalled
    obtain ⟨hle, hall⟩ := hs.flushed before hcalled
    exact ⟨hle, fun j hj => hall j (hflushed j hj)⟩

/-- A step of the backend before it has seen the request to stop. -/
theorem Phases.of_round (hs : Phases s) (hshards : t.shards = s.shards) (happended : t.appended = s.appended)
    (hcontrol : t.controlAt = s.controlAt) (hstarted : t.started = s.started)
    (hrequested : t.stopRequested = s.stopRequested) (hruns : s.backendAt ≠ .notRunning ∧ s.backendAt ≠ .finished)
    (hdest : t.backendAt ≠ .notRunning) (hround : t.backendAt.isLast = false) : Phases t := by
  refine hs.of_same hshards happended hcontrol hstarted hrequested hruns ?_ ?_ ?_
  · intro hrest
    rcases hrest with hrest | hrest
    · exact absurd hrest hdest
    · rw [hrest] at hround
      cases hround
  · intro hlast
    exact absurd (hlast.symm.trans hround) Bool.noConfusion
  · intro j hj
    rw [BackendAt.flushedShards_eq_zero hround] at hj
    cases hj

theorem Phases.stopRequested (hs : Phases s) (hlast : s.backendAt.isLast = true) : s.stopRequested = true := by
  cases hrequested : s.stopRequested with
  | true => rfl
  | false => exact absurd (hlast.symm.trans (hs.notLast hrequested)) Bool.noConfusion

theorem Phases.collectShard {last : Bool} (hs : Phases s) (hok : (s.shards i).Ok i) (hat : s.backendAt = .collect i last) :
    Phases { s.collectShard i with backendAt := .collect (i + 1) last } := by
  obtain ⟨-, -, htext⟩ := Shard.lines_collect s.free hok
  refine ⟨?_, ?_, hs.halted, ?_, ?_, hs.unrequested, hs.requested, ?_⟩
  · intro hrest
    rcases hrest with hrest | hrest <;> cases hrest
  · intro hidle hfalse
    have hresting := hs.unstarted hidle hfalse
    rw [hat] at hresting
    cases hresting
  · intro before hstopped
    have hfinished := hs.stopped before hstopped
    rw [hat] at hfinished
    cases hfinished
  · intro hfalse
    have hlast := hs.notLast hfalse
    rwa [hat] at hlast
  · intro before hcalled
    obtain ⟨hle, hflushed⟩ := hs.flushed before hcalled
    refine ⟨hle, ?_⟩
    intro j hj
    by_cases hij : j = i
    · subst hij
      -- What is left of the shard is its new current buffer.
      simp only [AsyncLogging.collectShard, Function.update_self]
      intro l hl _
      exact htext l hl
    · simp only [AsyncLogging.collectShard, Function.update_of_ne hij]
      refine hflushed j ?_
      cases last with
      | false => cases hj
      | true =>
        have hle : (j : Nat) < i + 1 := hj
        have hne : (j : Nat) ≠ i := fun heq => hij (Fin.ext heq)
        rw [hat]
        exact Nat.lt_of_le_of_ne (Nat.le_of_lt_succ hle) hne

theorem Phases.threadFunc {now : String} (hs : Phases s) (hok : ∀ i, (s.shards i).Ok i)
    (h : s.threadFunc now = some t) : Phases t := by
  -- In the last round the request to stop was seen before.
  have hlast : s.backendAt.isLast = true → s.stopRequested = true := hs.stopRequested
  cases backendStep_of_threadFunc h with
  | stopSeen hat hrequested =>
    refine hs.of_same rfl rfl rfl rfl rfl (by simp [hat]) (by simp) (fun _ => hrequested) ?_
    intro j hj
    cases hj
  | waits hat => exact hs.of_round rfl rfl rfl rfl rfl (by simp [hat]) BackendAt.noConfusion rfl
  | wakes hat => exact hs.of_round rfl rfl rfl rfl rfl (by simp [hat]) BackendAt.noConfusion rfl
  | collects hat => exact hs.collectShard (hok _) hat
  | lastCollected hat hi =>
    rw [hat] at hlast
    refine hs.of_same rfl rfl rfl rfl rfl (by simp [hat]) (by simp) (fun _ => hlast rfl) ?_
    intro j _
    rw [hat]
    exact Nat.lt_of_lt_of_le j.isLt hi
  | collected hat =>
    refine hs.of_round rfl rfl rfl rfl rfl (by simp [hat]) ?_ ?_
    · cases s.buffersToWrite.isEmpty <;> exact BackendAt.noConfusion
    · cases s.buffersToWrite.isEmpty <;> rfl
  | limits hat =>
    unfold AsyncLogging.dropBuffers
    split
    · exact hs.of_round rfl rfl rfl rfl rfl (by simp [hat]) BackendAt.noConfusion rfl
    · exact hs.of_round rfl rfl rfl rfl rfl (by simp [hat]) BackendAt.noConfusion rfl
  | @writes k last buffer hat _ =>
    rw [hat] at hlast
    refine hs.of_same rfl rfl rfl rfl rfl (by simp [hat]) (by simp) hlast ?_
    intro j hj
    rw [hat]
    cases last <;> exact hj
  | finishes hat _ =>
    rw [hat] at hlast
    refine hs.of_same rfl rfl rfl rfl rfl (by simp [hat]) (fun _ => rfl) (fun _ => hlast rfl) ?_
    intro j hj
    rw [hat]
    exact hj
  | written hat _ => exact hs.of_round rfl rfl rfl rfl rfl (by simp [hat]) BackendAt.noConfusion rfl

/-! ## Every run -/

/-- No line is longer than a buffer. -/
def LinesFit (size : Nat) (_ : AsyncLogging n) : Event n → Prop
  | .append _ text => text.length ≤ size
  | _ => True

instance (size : Nat) (s : AsyncLogging n) : ∀ e, Decidable (LinesFit size s e)
  | .append _ text => inferInstanceAs (Decidable (text.length ≤ size))
  | .start | .stop | .stopThread | .backend _ => inferInstanceAs (Decidable True)

theorem Inv.start (hs : Inv s) (hphases : Phases s) (hcontrol : s.controlAt.inStop = false) : Inv s.start := by
  unfold AsyncLogging.start
  split
  · exact hs
  · rename_i hstarted
    have hrest : s.backendAt = .notRunning ∨ s.backendAt = .finished := by
      cases hat : s.controlAt with
      | idle => exact .inl (hphases.unstarted hat (by simpa using hstarted))
      | stopped before => exact .inr (hphases.stopped before hat)
      | _ =>
        rw [hat] at hcontrol
        cases hcontrol
    have hempty : s.unwritten = [] := by
      unfold unwritten
      rcases hrest with hrest | hrest <;> rw [hrest] <;> exact hphases.resting (by simp [hrest])
    exact hs.of_moved rfl rfl rfl (by rw [hempty]; rfl)

theorem inv_step {e : Event n} (hs : Inv s ∧ Phases s) (hc : LinesFit size s e) (h : s.step size e = some t) :
    Inv t ∧ Phases t := by
  obtain ⟨hinv, hphases⟩ := hs
  cases e with
  | append i text =>
    cases h
    exact ⟨hinv.append hc, hphases.append (hinv.shards i) hc⟩
  | start =>
    simp only [step] at h
    split at h
    · cases h
    · rename_i hcontrol
      cases h
      exact ⟨hinv.start hphases (by simpa using hcontrol), hphases.start⟩
  | stop =>
    simp only [step] at h
    split at h
    · cases h
    · cases h
      refine ⟨?_, hphases.stop⟩
      unfold AsyncLogging.stop
      split
      · exact hinv.of_moved rfl rfl rfl rfl
      · exact hinv
  | stopThread =>
    refine ⟨?_, hphases.stopThread h⟩
    simp only [step, AsyncLogging.stopThread] at h
    split at h
    · cases h
    · cases h
    · cases h
      exact hinv.of_moved rfl rfl rfl rfl
    · split at h
      · cases h
        exact hinv.of_moved rfl rfl rfl rfl
      · cases h
  | backend now => exact ⟨hinv.threadFunc h, hphases.threadFunc hinv.shards h⟩

/-- Whatever is appended, collected, written, stopped and started again, the lines of a shard in the file, in
`buffersToWrite`, in its buffers and in its current buffer are those appended to it, in their order, without the ones
that were erased. When `stop` has returned, no text that was appended before it was called is in memory. -/
theorem log_lines_kept {es : List (Event n)} (hrun : (system n size).Run (LinesFit size) {} es s) :
    (∀ i, s.written.filter (·.shard = i) ++ (linesOf s.unwritten).filter (·.shard = i) ++
        linesOf (s.shards i).buffers ++ (s.shards i).current =
      s.appended.filter fun l => l.shard = i ∧ l ∉ s.erased) ∧
    (∀ i, (s.shards i).currentBuffer.isSome = true) ∧
    (∀ i b, (s.shards i).nextBuffer = some b → b.lines = []) ∧
    ∀ before, s.controlAt = .stopped before → linesOf s.unwritten = [] ∧
      ∀ i, ∀ l ∈ (s.shards i).lines, l.number < before → l.text = [] := by
  obtain ⟨hinv, hphases⟩ : Inv s ∧ Phases s := by
    exact hrun.invariant (I := fun s => Inv s ∧ Phases s) (fun hs hc h => inv_step hs hc h) ⟨Inv.init, Phases.init⟩
  refine ⟨?_, fun i => (hinv.shards i).current, fun i => (hinv.shards i).next, ?_⟩
  · intro i
    rw [List.append_assoc]
    exact hinv.stream i
  · intro before hstopped
    have hfinished := hphases.stopped before hstopped
    obtain ⟨-, hflushed⟩ := hphases.flushed before (by rw [hstopped]; rfl)
    refine ⟨?_, ?_⟩
    · have hempty : s.unwritten = s.buffersToWrite := by simp [unwritten, hfinished]
      rw [hempty, hphases.resting (.inr hfinished)]
      rfl
    · intro i
      exact hflushed i (by rw [hfinished]; exact i.isLt)

/-- Buffers for one character. The first round finds 28 buffers and erases 26; another line is appended before `stop`
is called, and one while it waits for the backend. -/
def stoppedAfterDrop : List (Event 2) :=
  .start :: .append 1 ['a'] :: List.replicate 27 (.append 0 ['b']) ++ List.replicate 9 (.backend "now") ++
    [.append 0 ['c'], .stop, .append 0 ['d'], .stopThread] ++ List.replicate 7 (.backend "now") ++ [.stopThread]

theorem stopped_after_drop :
    ∃ s, (system 2 1).Run (LinesFit 1) {} stoppedAfterDrop s ∧ s.controlAt = .stopped 29 ∧ s.erased.length = 26 ∧
      (∀ i, s.written.filter (·.shard = i) ++ (linesOf s.unwritten).filter (·.shard = i) ++
          linesOf (s.shards i).buffers ++ (s.shards i).current =
        s.appended.filter fun l => l.shard = i ∧ l ∉ s.erased) ∧
      ∀ i, ∀ l ∈ (s.shards i).lines, l.number < 29 → l.text = [] := by
  -- The replay gives the run and what is read off its last state; the rest is said of any such state.
  obtain ⟨s, hrun, hcontrol, herased⟩ : ∃ s, (system 2 1).Run (LinesFit 1) {} stoppedAfterDrop s ∧
      s.controlAt = .stopped 29 ∧ s.erased.length = 26 := by
    refine Stepper.Run.replay rfl ?_
    intro _
    exact ⟨rfl, rfl⟩
  obtain ⟨hstream, -, -, hstopped⟩ := log_lines_kept hrun
  exact ⟨s, hrun, hcontrol, herased, hstream, (hstopped 29 hcontrol).2⟩

end AsyncLogging
end Muduo
