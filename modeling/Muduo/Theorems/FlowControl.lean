import Muduo.Lib.Simulation
import Muduo.Lib.Watched
import Muduo.Theorems.ConnectionRules
import Muduo.Theorems.OutputStream

/-! # Flow control

A user who sends faster than the peer reads is told so: the high water mark callback is called when the output buffer has
grown to the mark, and the write complete callback when it is empty. Both are queued in the loop. What is called, followed
by what is queued, is what the history of the buffer asks for, whatever is called from callbacks and from other threads,
also when the connection goes down in between. -/

namespace Muduo
open Lib

/-! ## What the history asks for -/

namespace ConnEvent

/-- The kernel took something of the buffer, or what it takes of a message at once. -/
def wrote : ConnEvent → Bool
  | .sendInLoop _ (some (.wrote _)) | .handleWrite _ (.wrote (_ + 1)) => true
  | _ => false

/-- An event in which nothing is written or kept. -/
def IsSilent (e : ConnEvent) : Prop := e.wrote = false ∧ e.streamed = [] ∧ e.accepted = []

/-- What the user is told of an event by which the buffer goes from one size to another. -/
def notice (mark before after : Nat) (e : ConnEvent) : Option ConnCallback :=
  if e.wrote ∧ after = 0 then some .writeComplete
  else if before < mark ∧ mark ≤ after then some (.highWaterMark after)
  else none

end ConnEvent

/-- How many bytes of the stream the kernel has not accepted. -/
def backlog (log : List ConnEvent) : Nat := (stream log).length - (accepted log).length

/-- What the user is told, in its order. -/
def notices (mark : Nat) : List ConnEvent → List ConnCallback
  | [] => []
  | e :: log => notices mark log ++ (e.notice mark (backlog log) (backlog (e :: log))).toList

namespace ConnCallback

def isNotice : ConnCallback → Bool
  | .writeComplete | .highWaterMark _ => true
  | .connection | .message | .close => false

end ConnCallback

def Functor.notice? : Functor → Option ConnCallback
  | .writeComplete _ => some .writeComplete
  | .highWaterMark _ len => some (.highWaterMark len)
  | _ => none

/-- The functor that a call in another thread is to queue. -/
def Elsewhere.functor : Elsewhere → Functor
  | .setState f | .queueInLoop f => f

section Log
variable {mark : Nat} {e : ConnEvent} {log : List ConnEvent}

/-- An event that is not about the output asks for nothing. -/
theorem notice_eq_none (hwrote : e.wrote = false) (n : Nat) : e.notice mark n n = none := by
  rw [ConnEvent.notice, if_neg (by simp [hwrote]), if_neg (by omega)]

theorem backlog_eq {rest : Bytes} (h : accepted log ++ rest = stream log) : backlog log = rest.length := by
  rw [backlog, ← h, List.length_append, Nat.add_sub_cancel_left]

/-- The buffer gets empty by a write only. -/
theorem wrote_of_emptied (hbefore : 0 < backlog log) (hafter : backlog (e :: log) = 0) : e.wrote = true := by
  unfold backlog at hbefore hafter
  rw [stream_cons, accepted_cons, List.length_append, List.length_append] at hafter
  have htaken : e.accepted ≠ [] := by
    intro hnone
    rw [hnone, List.length_nil] at hafter
    omega
  cases e with
  | sendInLoop message direct =>
    rcases direct with _ | n | errno
    · exact absurd rfl htaken
    · rfl
    · exact absurd rfl htaken
  | handleWrite offered result =>
    rcases result with (_ | n) | errno
    · exact absurd rfl htaken
    · rfl
    · exact absurd rfl htaken
  | setState _ | connectionCallback _ | messageCallback | closeCallback | shutdownWrite => exact absurd rfl htaken

/-- A user who was last told of the high water mark is told again when the buffer is empty. -/
theorem backlog_pos_of_last {len : Nat} (h : (notices mark log).getLast? = some (.highWaterMark len)) :
    mark ≤ len ∧ 0 < backlog log := by
  induction log with
  | nil => cases h
  | cons e log ih =>
    rw [notices] at h
    cases hnotice : e.notice mark (backlog log) (backlog (e :: log)) with
    | none =>
      rw [hnotice, Option.toList_none, List.append_nil] at h
      obtain ⟨hmark, hbefore⟩ := ih h
      refine ⟨hmark, Nat.pos_of_ne_zero fun hafter => ?_⟩
      rw [ConnEvent.notice, if_pos ⟨wrote_of_emptied hbefore hafter, hafter⟩] at hnotice
      cases hnotice
    | some c =>
      rw [hnotice, Option.toList_some, List.getLast?_concat] at h
      obtain rfl := Option.some.inj h
      unfold ConnEvent.notice at hnotice
      split at hnotice
      · cases hnotice
      · obtain ⟨⟨hbefore, hafter⟩, heq⟩ := Option.ite_none_right_eq_some.mp hnotice
        cases heq
        exact ⟨hafter, by omega⟩

end Log

namespace Site

/-! ## The queue -/

/-- What the user is still to be told, in its order. -/
def queued (s : Site) : List ConnCallback :=
  (s.loop.queue.functors ++ s.loop.queue.pendingFunctors).filterMap Functor.notice?

section Queue
variable {s : Site} {f : Functor}

theorem queued_congr {t : Site} (h : t.loop.queue = s.loop.queue) : queued t = queued s := by
  rw [queued, queued, h]

theorem queued_queue (b : Bool) (s : Site) (f : Functor) :
    queued { s with loop := { s.loop with queue := s.loop.queue.queueInLoop b f } } =
      queued s ++ f.notice?.toList := by
  simp [queued, ← List.append_assoc]
  cases f <;> rfl

theorem queued_queueWriteComplete (h : s.conn.writeCompleteCallback = true) :
    queued s.queueWriteComplete = queued s ++ [.writeComplete] := by
  rw [queueWriteComplete, if_pos h]
  exact queued_queue true s _

theorem queued_queueHighWaterMark (h : s.conn.highWaterMarkCallback = true) (oldLen remaining : Nat) :
    queued (s.queueHighWaterMark oldLen remaining) = queued s ++
      (if oldLen < s.conn.highWaterMark ∧ s.conn.highWaterMark ≤ oldLen + remaining then
        some (ConnCallback.highWaterMark (oldLen + remaining)) else none).toList := by
  unfold queueHighWaterMark
  by_cases hcross : oldLen < s.conn.highWaterMark ∧ s.conn.highWaterMark ≤ oldLen + remaining
  · rw [if_pos ⟨hcross.2, hcross.1, h⟩, if_pos hcross]
    exact queued_queue true s _
  · rw [if_neg fun hq => hcross ⟨hq.2.1, hq.1⟩, if_neg hcross, Option.toList_none, List.append_nil]

end Queue

/-! ## What an event does -/

section Effects
variable {s : Site} {e : ConnEvent} {rest : Bytes} {mark : Nat}

/-- The settings that decide what the user is told. -/
structure Watching (mark : Nat) (s : Site) : Prop where
  mark : s.conn.highWaterMark = mark
  writeComplete : s.conn.writeCompleteCallback = true
  highWaterMark : s.conn.highWaterMarkCallback = true

theorem keptByOutput_watching (mark : Nat) : KeptByOutput (Watching mark) where
  record _ h := ⟨h.mark, h.writeComplete, h.highWaterMark⟩
  queue _ h := ⟨h.mark, h.writeComplete, h.highWaterMark⟩
  append h := ⟨h.mark, h.writeComplete, h.highWaterMark⟩
  retrieve h := ⟨h.mark, h.writeComplete, h.highWaterMark⟩
  enable _ h := ⟨h.mark, h.writeComplete, h.highWaterMark⟩
  disable _ h := ⟨h.mark, h.writeComplete, h.highWaterMark⟩

/-- The event is logged, the bytes that are neither taken nor given up stay in the buffer, and the user is told. -/
structure Effect (mark : Nat) (e : ConnEvent) (s t : Site) : Prop where
  log : t.conn.log = e :: s.conn.log
  bytes : s.conn.outputBuffer.readableSpan ++ e.streamed = e.accepted ++ t.conn.outputBuffer.readableSpan
  queued : t.queued = s.queued ++
    (e.notice mark s.conn.outputBuffer.readableBytes t.conn.outputBuffer.readableBytes).toList

theorem sendLater_effect (h : Watching mark s) (hrest : rest ≠ [])
    (hbytes : s.conn.outputBuffer.readableSpan ++ e.streamed =
      e.accepted ++ (s.conn.outputBuffer.readableSpan ++ rest)) :
    Effect mark e s ((s.record e).sendLater rest) := by
  obtain ⟨hbuffer, hlog, -, -⟩ := sendLater_conn (s.record e) rest
  have hreadable : ((s.record e).sendLater rest).conn.outputBuffer.readableSpan =
      s.conn.outputBuffer.readableSpan ++ rest := by
    rw [hbuffer, Buffer.readableSpan_append]
    rfl
  have hlength : ((s.record e).sendLater rest).conn.outputBuffer.readableBytes =
      s.conn.outputBuffer.readableBytes + rest.length := by
    rw [← Buffer.length_readableSpan, hreadable, List.length_append, Buffer.length_readableSpan]
  have hqueue : ((s.record e).sendLater rest).queued =
      ((s.record e).queueHighWaterMark s.conn.outputBuffer.readableBytes rest.length).queued := by
    unfold sendLater
    dsimp only
    split <;> rfl
  refine ⟨hlog, by rw [hreadable, hbytes], ?_⟩
  have hpos : 0 < rest.length := List.length_pos_iff.mpr hrest
  have hrecord : (s.record e).conn.highWaterMarkCallback = true := h.highWaterMark
  have hnotice : ∀ n, e.notice mark n (n + rest.length) =
      if n < mark ∧ mark ≤ n + rest.length then some (.highWaterMark (n + rest.length)) else none :=
    fun n => if_neg (by omega)
  rw [hqueue, queued_queueHighWaterMark hrecord, hlength, hnotice, ← h.mark]
  rfl

/-- An event in which nothing is written or kept only goes to the log. -/
theorem record_effect (hwrote : e.wrote = false) (hstreamed : e.streamed = []) (haccepted : e.accepted = []) :
    Effect mark e s (s.record e) where
  log := rfl
  bytes := by
    rw [hstreamed, haccepted, List.append_nil]
    rfl
  queued := by
    have hnone : e.notice mark s.conn.outputBuffer.readableBytes (s.record e).conn.outputBuffer.readableBytes = none :=
      notice_eq_none hwrote _
    rw [hnone, Option.toList_none, List.append_nil]
    rfl

theorem sendInLoop_effect (message : Bytes) (result : WriteResult) (h : Watching mark s) (hstate : s.conn.state ≠ .kDisconnected) :
    Effect mark (.sendInLoop message (if s.writesDirectly then some result else none)) s
      (s.sendInLoop message result) := by
  rw [sendInLoop, if_neg hstate]
  cases hdirect : s.writesDirectly
  case false =>
    simp only [Bool.false_eq_true, if_false, sendRest]
    split
    · rename_i hempty
      rw [List.isEmpty_iff] at hempty
      exact record_effect rfl hempty rfl
    · rename_i hne
      refine sendLater_effect h (by simpa [List.isEmpty_iff] using hne) ?_
      simp [ConnEvent.accepted, ConnEvent.streamed]
  case true =>
    have hreadable := Output.readable_of_direct hdirect
    cases result with
    | wrote n =>
      simp only [if_true, sendRest]
      split
      · rename_i hempty
        rw [List.isEmpty_iff, List.drop_eq_nil_iff] at hempty
        have hnone : (s.record (.sendInLoop message (some (.wrote n)))).queueWriteComplete.conn.outputBuffer =
            s.conn.outputBuffer := by
          rw [queueWriteComplete_conn, record_outputBuffer]
        refine ⟨by simp, ?_, ?_⟩
        · simp [hreadable, ConnEvent.accepted, ConnEvent.streamed, List.take_of_length_le hempty]
        · have hrecord : (s.record (.sendInLoop message (some (.wrote n)))).conn.writeCompleteCallback = true :=
            h.writeComplete
          rw [queued_queueWriteComplete hrecord, hnone, Buffer.readableBytes_eq_zero.mpr hreadable]
          rfl
      · rename_i hne
        refine sendLater_effect h (by simpa [List.isEmpty_iff] using hne) ?_
        simp [hreadable, ConnEvent.accepted, ConnEvent.streamed]
    | error errno =>
      simp only [if_true, sendRest]
      split
      · rename_i hdrop
        refine record_effect rfl ?_ rfl
        rcases hdrop with ⟨-, hfault⟩ | hempty
        · rw [ConnEvent.streamed, if_pos hfault]
        · simp [ConnEvent.streamed, List.isEmpty_iff.mp hempty]
      · rename_i hkeep
        rw [not_or] at hkeep
        have hfault : ¬(errno = EPIPE ∨ errno = ECONNRESET) := by
          intro hfault
          refine hkeep.1 ⟨?_, hfault⟩
          rcases hfault with rfl | rfl <;> decide
        refine sendLater_effect h (by simpa [List.isEmpty_iff] using hkeep.2) ?_
        simp [hreadable, ConnEvent.accepted, ConnEvent.streamed, hfault]

/-- `handleWrite` up to the half-close that may follow. -/
theorem handleWrite_effect (result : WriteResult) (h : Watching mark s) (hwriting : s.conn.channel.isWriting = true) :
    ∃ t, Effect mark (.handleWrite s.conn.outputBuffer.readableSpan result) s t ∧
      (s.handleWrite result = t ∨ s.handleWrite result = t.record .shutdownWrite) := by
  rw [handleWrite, if_pos hwriting]
  rcases result with (_ | n) | errno
  · exact ⟨_, record_effect rfl rfl rfl, .inl rfl⟩
  · let written := (s.record (.handleWrite s.conn.outputBuffer.readableSpan (.wrote (n + 1)))).retrieveOutput (n + 1)
    have hbytes : s.conn.outputBuffer.readableSpan =
        s.conn.outputBuffer.readableSpan.take (n + 1) ++ written.conn.outputBuffer.readableSpan := by
      simp [written, retrieveOutput]
    change ∃ t, _ ∧ ((if written.conn.outputBuffer.readableBytes = 0 then written.drained else written) = t ∨
      (if written.conn.outputBuffer.readableBytes = 0 then written.drained else written) = t.record .shutdownWrite)
    by_cases hempty : written.conn.outputBuffer.readableBytes = 0
    · rw [if_pos hempty]
      -- The buffer is empty: the user is told, and the write side may be closed.
      have hwritten : (written.onChannel Channel.disableWriting).conn.writeCompleteCallback = true := h.writeComplete
      refine ⟨(written.onChannel Channel.disableWriting).queueWriteComplete, ⟨?_, ?_, ?_⟩, ?_⟩
      · rw [queueWriteComplete_conn]
        rfl
      · rw [queueWriteComplete_conn]
        exact (List.append_nil _).trans hbytes
      · rw [queued_queueWriteComplete hwritten, queueWriteComplete_conn, onChannel_outputBuffer, hempty]
        rfl
      · unfold drained
        dsimp only
        split
        · rw [shutdownInLoop, if_neg (by simp)]
          exact .inr rfl
        · exact .inl rfl
    · rw [if_neg hempty]
      refine ⟨written, ⟨rfl, (List.append_nil _).trans hbytes, ?_⟩, .inl rfl⟩
      have hle : written.conn.outputBuffer.readableBytes ≤ s.conn.outputBuffer.readableBytes := by
        rw [← Buffer.length_readableSpan, ← Buffer.length_readableSpan, hbytes, List.length_append]
        exact Nat.le_add_left _ _
      rw [ConnEvent.notice, if_neg fun hw => hempty hw.2, if_neg (by omega), Option.toList_none, List.append_nil]
      rfl
  · exact ⟨_, record_effect rfl rfl rfl, .inl rfl⟩

end Effects

/-! ## The invariant -/

/-- What was called, then what is queued, is what the log asks for; and until the connection is down the channel is
writing exactly while the buffer holds something. -/
structure Flow (mark : Nat) (w : Site × List ConnCallback) : Prop where
  watching : Watching mark w.1
  stream : accepted w.1.conn.log ++ w.1.conn.outputBuffer.readableSpan = stream w.1.conn.log
  told : w.2.reverse.filter ConnCallback.isNotice ++ w.1.queued = notices mark w.1.conn.log
  elsewhere : ∀ e ∈ w.1.elsewhere, e.functor.notice? = none
  writing : .setState .kDisconnected ∉ w.1.conn.log →
    (w.1.conn.channel.isWriting = true ↔ w.1.conn.outputBuffer.readableSpan ≠ [])

section Steps
variable {mark : Nat} {s t u : Site} {e : ConnEvent} {calls : List ConnCallback}

theorem Flow.effect (h : Flow mark (s, calls)) (heffect : Effect mark e s t) (hwatching : Watching mark t)
    (helsewhere : t.elsewhere = s.elsewhere) (hwriting : .setState .kDisconnected ∉ t.conn.log →
      (t.conn.channel.isWriting = true ↔ t.conn.outputBuffer.readableSpan ≠ [])) : Flow mark (t, calls) := by
  have hstream : accepted t.conn.log ++ t.conn.outputBuffer.readableSpan = Muduo.stream t.conn.log := by
    rw [heffect.log, accepted_cons, stream_cons, List.append_assoc, ← heffect.bytes, ← List.append_assoc, h.stream]
  refine ⟨hwatching, hstream, ?_, ?_, hwriting⟩
  · have hbefore := backlog_eq h.stream
    have hafter := backlog_eq hstream
    rw [Buffer.length_readableSpan] at hbefore hafter
    rw [heffect.log] at hafter
    dsimp only
    rw [heffect.queued, ← List.append_assoc, h.told, heffect.log, notices, hbefore, hafter]
  · dsimp only
    rw [helsewhere]
    exact h.elsewhere

theorem Flow.output (h : Flow mark (s, calls)) (hopen : .setState .kDisconnected ∉ s.conn.log) : Output s :=
  ⟨h.stream, h.writing hopen⟩

theorem keptByOutput_elsewhere (es : List Elsewhere) : KeptByOutput fun s => s.elsewhere = es where
  record _ h := h
  queue _ h := h
  append h := h
  retrieve h := h
  enable _ h := h
  disable _ h := h

theorem Flow.sendInLoop (h : Flow mark (s, calls)) (message : Bytes) (result : WriteResult) :
    Flow mark (s.sendInLoop message result, calls) := by
  by_cases hstate : s.conn.state = .kDisconnected
  · rwa [Site.sendInLoop, if_pos hstate]
  · have heffect := sendInLoop_effect message result h.watching hstate
    refine h.effect heffect ((keptByOutput_watching mark).sendInLoop h.watching)
      ((keptByOutput_elsewhere _).sendInLoop rfl) fun hopen => ?_
    rw [heffect.log] at hopen
    exact ((h.output fun hmem => hopen (List.mem_cons_of_mem _ hmem)).sendInLoop hstate).writing

/-- Nothing that the user is told about happens between two states. -/
structure Silent (s t : Site) : Prop where
  log : ∃ es, t.conn.log = es ++ s.conn.log ∧ ∀ e ∈ es, e.IsSilent
  buffer : t.conn.outputBuffer = s.conn.outputBuffer
  queued : t.queued = s.queued
  watching : ∀ mark, Watching mark s → Watching mark t
  elsewhere : ∀ e ∈ t.elsewhere, e ∈ s.elsewhere ∨ e.functor.notice? = none
  writing : t.conn.channel.isWriting = s.conn.channel.isWriting ∨ .setState .kDisconnected ∈ t.conn.log

theorem Silent.trans (h : Silent s t) (h' : Silent t u) : Silent s u := by
  obtain ⟨es, hlog, hsilent⟩ := h.log
  obtain ⟨es', hlog', hsilent'⟩ := h'.log
  refine ⟨⟨es' ++ es, by rw [hlog', hlog, List.append_assoc], ?_⟩, h'.buffer.trans h.buffer, h'.queued.trans h.queued,
    fun mark hs => h'.watching mark (h.watching mark hs), ?_, ?_⟩
  · exact List.forall_mem_append.mpr ⟨hsilent', hsilent⟩
  · intro e he
    rcases h'.elsewhere e he with he | he
    · exact h.elsewhere e he
    · exact .inr he
  · rcases h'.writing with hw' | hw'
    · rcases h.writing with hw | hw
      · exact .inl (hw'.trans hw)
      · rw [hlog']
        exact .inr (List.mem_append_right _ hw)
    · exact .inr hw'

theorem notices_silent {log es : List ConnEvent} (h : ∀ e ∈ es, e.IsSilent) :
    accepted (es ++ log) = accepted log ∧ Muduo.stream (es ++ log) = Muduo.stream log ∧
      notices mark (es ++ log) = notices mark log := by
  induction es with
  | nil => exact ⟨rfl, rfl, rfl⟩
  | cons e es ih =>
    obtain ⟨⟨hwrote, hstreamed, haccepted⟩, hes⟩ := List.forall_mem_cons.mp h
    obtain ⟨iha, ihs, ihn⟩ := ih hes
    have hbacklog : backlog (e :: (es ++ log)) = backlog (es ++ log) := by
      rw [backlog, backlog, stream_cons, accepted_cons, hstreamed, haccepted, List.append_nil, List.append_nil]
    rw [List.cons_append, accepted_cons, stream_cons, haccepted, hstreamed, List.append_nil, List.append_nil, notices,
      hbacklog, notice_eq_none hwrote, Option.toList_none, List.append_nil]
    exact ⟨iha, ihs, ihn⟩

theorem Flow.silent (h : Flow mark (s, calls)) (hsilent : Silent s t) : Flow mark (t, calls) := by
  obtain ⟨es, hlog, hes⟩ := hsilent.log
  obtain ⟨haccepted, hstream, hnotices⟩ := notices_silent hes
  refine ⟨hsilent.watching mark h.watching, ?_, ?_, ?_, ?_⟩
  · dsimp only
    rw [hlog, haccepted, hstream, hsilent.buffer]
    exact h.stream
  · dsimp only
    rw [hlog, hnotices, hsilent.queued]
    exact h.told
  · intro e he
    rcases hsilent.elsewhere e he with he | he
    · exact h.elsewhere e he
    · exact he
  · intro hopen
    dsimp only at hopen ⊢
    rcases hsilent.writing with hwriting | hclosed
    · rw [hwriting, hsilent.buffer]
      refine h.writing fun hmem => hopen ?_
      rw [hlog]
      exact List.mem_append_right _ hmem
    · exact absurd hclosed hopen

theorem silent_record (s : Site) (h : e.IsSilent) : Silent s (s.record e) where
  log := ⟨[e], rfl, List.forall_mem_singleton.mpr h⟩
  buffer := rfl
  queued := rfl
  watching _ hs := ⟨hs.mark, hs.writeComplete, hs.highWaterMark⟩
  elsewhere _ he := .inl he
  writing := .inl rfl

theorem Flow.handleWrite (h : Flow mark (s, calls)) (result : WriteResult) :
    Flow mark (s.handleWrite result, calls) := by
  by_cases hwriting : s.conn.channel.isWriting = true
  · obtain ⟨t, heffect, heq⟩ := handleWrite_effect result h.watching hwriting
    have hwatching : Watching mark (s.handleWrite result) := (keptByOutput_watching mark).handleWrite h.watching
    have helsewhere : (s.handleWrite result).elsewhere = s.elsewhere := (keptByOutput_elsewhere _).handleWrite rfl
    have hout : .setState .kDisconnected ∉ t.conn.log → Output (s.handleWrite result) := by
      intro hopen
      rw [heffect.log] at hopen
      exact (h.output fun hmem => hopen (List.mem_cons_of_mem _ hmem)).handleWrite
    rcases heq with heq | heq
    · rw [heq] at hwatching helsewhere hout ⊢
      exact h.effect heffect hwatching helsewhere fun hopen => (hout hopen).writing
    · rw [heq] at hwatching helsewhere hout ⊢
      have ht : Flow mark (t, calls) :=
        h.effect heffect ⟨hwatching.mark, hwatching.writeComplete, hwatching.highWaterMark⟩ helsewhere
          fun hopen => (hout hopen).writing
      exact ht.silent (silent_record t ⟨rfl, rfl, rfl⟩)
  · rwa [Site.handleWrite, if_neg hwriting]

end Steps

/-! ## The other functions -/

section Silent
variable {s : Site}

theorem silent_setState (state : StateE) (s : Site) : Silent s (s.setState state) where
  log := ⟨[.setState state], rfl, List.forall_mem_singleton.mpr ⟨rfl, rfl, rfl⟩⟩
  buffer := rfl
  queued := rfl
  watching _ h := ⟨h.mark, h.writeComplete, h.highWaterMark⟩
  elsewhere _ he := .inl he
  writing := .inl rfl

/-- The reading side does not touch the interest in writing. -/
theorem silent_setEvents {f : Mask → Mask}
    (h : (f s.conn.channel.events).has Channel.kWriteEvent = s.conn.channel.isWriting) :
    Silent s (s.onChannel (Channel.setEvents f)) where
  log := ⟨[], rfl, List.forall_mem_nil _⟩
  buffer := rfl
  queued := rfl
  watching _ h := ⟨h.mark, h.writeComplete, h.highWaterMark⟩
  elsewhere _ he := .inl he
  writing := .inl h

theorem silent_enableReading (s : Site) : Silent s (s.onChannel Channel.enableReading) := by
  refine silent_setEvents ?_
  have hdisjoint : Channel.kWriteEvent &&& Channel.kReadEvent = 0 := by decide
  rw [Channel.isWriting, Mask.has, Mask.has, BitVec.and_comm, BitVec.and_or_distrib_left, hdisjoint, BitVec.and_comm]
  exact congrArg (· != 0) BitVec.or_zero

theorem silent_disableReading (s : Site) : Silent s (s.onChannel Channel.disableReading) := by
  refine silent_setEvents ?_
  have hwrite : ~~~Channel.kReadEvent &&& Channel.kWriteEvent = Channel.kWriteEvent := by decide
  rw [Channel.isWriting, Mask.has, Mask.has, BitVec.and_assoc, hwrite]

/-- A change of the connection that the flow does not depend on. -/
theorem silent_conn {conn : TcpConnection} (hlog : conn.log = s.conn.log) (hbuffer : conn.outputBuffer = s.conn.outputBuffer)
    (hmark : conn.highWaterMark = s.conn.highWaterMark)
    (hcallbacks : conn.writeCompleteCallback = s.conn.writeCompleteCallback ∧
      conn.highWaterMarkCallback = s.conn.highWaterMarkCallback)
    (hevents : conn.channel.events = s.conn.channel.events) : Silent s { s with conn } where
  log := ⟨[], hlog, List.forall_mem_nil _⟩
  buffer := hbuffer
  queued := rfl
  watching _ h := ⟨hmark.trans h.mark, hcallbacks.1.trans h.writeComplete, hcallbacks.2.trans h.highWaterMark⟩
  elsewhere _ he := .inl he
  writing := .inl (congrArg (Mask.has · _) hevents)

/-- A change of the loop and of the calls in other threads. -/
theorem silent_of_conn {t : Site} (hconn : t.conn = s.conn) (hqueued : t.queued = s.queued)
    (helsewhere : ∀ e ∈ t.elsewhere, e ∈ s.elsewhere ∨ e.functor.notice? = none) : Silent s t where
  log := ⟨[], congrArg TcpConnection.log hconn, List.forall_mem_nil _⟩
  buffer := congrArg TcpConnection.outputBuffer hconn
  queued := hqueued
  watching _ h := ⟨(congrArg _ hconn).trans h.mark, (congrArg _ hconn).trans h.writeComplete,
    (congrArg _ hconn).trans h.highWaterMark⟩
  elsewhere := helsewhere
  writing := .inl (congrArg (·.channel.isWriting) hconn)

theorem Silent.refl (s : Site) : Silent s s := silent_of_conn rfl rfl fun _ he => .inl he

theorem silent_assertState (a : ConnAssert) (holds : Bool) (s : Site) : Silent s (s.assertState a holds) := by
  unfold assertState
  split
  · exact .refl s
  · exact silent_conn rfl rfl rfl ⟨rfl, rfl⟩ rfl

theorem silent_startReadInLoop (s : Site) : Silent s s.startReadInLoop := by
  unfold startReadInLoop
  split
  · exact (silent_enableReading s).trans (silent_conn rfl rfl rfl ⟨rfl, rfl⟩ rfl)
  · exact .refl s

theorem silent_stopReadInLoop (s : Site) : Silent s s.stopReadInLoop := by
  unfold stopReadInLoop
  split
  · exact (silent_disableReading s).trans (silent_conn rfl rfl rfl ⟨rfl, rfl⟩ rfl)
  · exact .refl s

theorem silent_establish (s : Site) : Silent s s.establish :=
  ((silent_assertState _ _ s).trans ((silent_setState _ _).trans (silent_enableReading _))).trans
    (silent_conn rfl rfl rfl ⟨rfl, rfl⟩ rfl)

theorem silent_disconnect (s : Site) : Silent s s.disconnect where
  log := ⟨[.setState .kDisconnected], rfl, List.forall_mem_singleton.mpr ⟨rfl, rfl, rfl⟩⟩
  buffer := rfl
  queued := rfl
  watching _ h := ⟨h.mark, h.writeComplete, h.highWaterMark⟩
  elsewhere _ he := .inl he
  writing := .inr List.mem_cons_self

theorem silent_removeChannel (s : Site) : Silent s s.removeChannel where
  log := ⟨[], rfl, List.forall_mem_nil _⟩
  buffer := rfl
  queued := by
    have hqueue : ∀ (l : EventLoop) (c : Channel), (l.removeChannel c).1.queue = l.queue := by
      intro l c
      unfold EventLoop.removeChannel
      dsimp only
      split <;> rfl
    exact queued_congr (hqueue _ _)
  watching _ h := ⟨h.mark, h.writeComplete, h.highWaterMark⟩
  elsewhere _ he := .inl he
  writing := by
    refine .inl (congrArg (Mask.has · _) ?_)
    simp only [removeChannel, onChannel, Channel.remove, EventLoop.removeChannel]
    split <;> rfl

theorem silent_shutdownInLoop (s : Site) : Silent s s.shutdownInLoop := by
  unfold shutdownInLoop
  split
  · exact .refl s
  · exact silent_record s ⟨rfl, rfl, rfl⟩

theorem silent_shutdown (s : Site) : Silent s s.shutdown := by
  unfold shutdown
  split
  · exact (silent_setState _ s).trans (silent_shutdownInLoop _)
  · exact .refl s

/-- The functors of other threads are not those of the flow. -/
theorem Call.notice?_rest {call : Call} {id : Nat} {state : StateE} {e : Elsewhere}
    (h : call.rest id state = some e) : e.functor.notice? = none := by
  cases call with
  | send message =>
    obtain ⟨-, ⟨⟩⟩ := Option.ite_none_right_eq_some.mp h
    rfl
  | shutdown =>
    obtain ⟨-, ⟨⟩⟩ := Option.ite_none_right_eq_some.mp h
    rfl
  | forceClose =>
    obtain ⟨-, ⟨⟩⟩ := Option.ite_none_right_eq_some.mp h
    rfl
  | startRead | stopRead =>
    cases h
    rfl

theorem silent_callElsewhere (call : Call) (s : Site) : Silent s (s.callElsewhere call) := by
  refine silent_of_conn rfl rfl fun e he => ?_
  rcases List.mem_append.mp he with he | he
  · exact .inr (Call.notice?_rest (Option.mem_toList.mp he))
  · exact .inl he

end Silent

section Code
variable {mark : Nat} {s : Site} {calls : List ConnCallback}

theorem Flow.stepElsewhere (h : Flow mark (s, calls)) (e : Elsewhere) : Flow mark (s.stepElsewhere e, calls) := by
  unfold Site.stepElsewhere
  split
  case isFalse => exact h
  case isTrue he =>
    have hnone := h.elsewhere e he
    have herase : Silent s { s with elsewhere := s.elsewhere.erase e } :=
      silent_of_conn rfl rfl fun _ hm => .inl (List.mem_of_mem_erase hm)
    cases e with
    | setState f =>
      refine h.silent ((herase.trans (silent_setState .kDisconnecting _)).trans (silent_of_conn rfl rfl ?_))
      intro e' he'
      rcases List.mem_cons.mp he' with rfl | he'
      · exact .inr hnone
      · exact .inl he'
    | queueInLoop f =>
      refine h.silent (herase.trans (silent_of_conn rfl ?_ fun _ hm => .inl hm))
      have hqueued := queued_queue false { s with elsewhere := s.elsewhere.erase (.queueInLoop f) } f
      rw [show f.notice? = none from hnone, Option.toList_none, List.append_nil] at hqueued
      exact hqueued

/-- Every act of the code keeps the invariant, and its callbacks are not those of the flow. -/
def FlowCode (x : Code Site ConnCallback Unit) : Prop :=
  x.Each (fun f => ∀ mark s calls, Flow mark (s, calls) → Flow mark (f s, calls)) (·.isNotice = false)

theorem flowCode_modify {f : Site → Site} (h : ∀ s, Silent s (f s)) : FlowCode (Code.modify f) :=
  Code.each_modify.mpr fun _ s _ hs => hs.silent (h s)

theorem flowCode_callbackIf {isSet : TcpConnection → Bool} {e : TcpConnection → ConnEvent} {c : ConnCallback}
    (he : ∀ conn, (e conn).IsSilent) (hc : c.isNotice = false) : FlowCode (callbackIf isSet e c) := by
  refine Code.each_get.bind fun s => Code.Each.when ?_
  exact (flowCode_modify fun t => silent_record t (he _)).bind fun _ => Code.each_callback.mpr hc

theorem flowCode_handleClose : FlowCode handleClose := by
  refine (flowCode_modify fun s => silent_assertState _ _ s).bind fun _ => ?_
  refine (flowCode_modify silent_disconnect).bind fun _ => ?_
  refine (flowCode_callbackIf (fun _ => ⟨rfl, rfl, rfl⟩) rfl).bind fun _ => ?_
  exact flowCode_callbackIf (fun _ => ⟨rfl, rfl, rfl⟩) rfl

theorem flowCode_forceCloseInLoop : FlowCode forceCloseInLoop :=
  Code.each_get.bind fun _ => flowCode_handleClose.when

theorem flowCode_forceClose : FlowCode forceClose :=
  Code.each_get.bind fun _ => Code.Each.when <|
    (flowCode_modify (silent_setState _)).bind fun _ => flowCode_forceCloseInLoop

theorem flowCode_connectDestroyed : FlowCode (connectDestroyed .connection) := by
  have hdestroying : ∀ s : Site, Silent s { s with conn := { s.conn with destroying := true } } :=
    fun s => silent_conn rfl rfl rfl ⟨rfl, rfl⟩ rfl
  refine (flowCode_modify hdestroying).bind fun _ => Code.each_get.bind fun _ => ?_
  refine Code.Each.bind (Code.Each.when ?_) fun _ => flowCode_modify silent_removeChannel
  exact (flowCode_modify silent_disconnect).bind fun _ => flowCode_callbackIf (fun _ => ⟨rfl, rfl, rfl⟩) rfl

theorem flowCode_connectEstablished : FlowCode (connectEstablished .connection) :=
  (flowCode_modify silent_establish).bind fun _ => flowCode_callbackIf (fun _ => ⟨rfl, rfl, rfl⟩) rfl

theorem flowCode_handleRead (r : ReadResult) : FlowCode (handleRead r) := by
  cases r with
  | error errno => trivial
  | read data =>
    refine Code.each_get.bind fun s => ?_
    split
    · exact flowCode_handleClose
    · have hread : ∀ data (t : Site), Silent t (t.readFd data) := fun data t => silent_conn rfl rfl rfl ⟨rfl, rfl⟩ rfl
      exact (flowCode_modify (hread _)).bind fun _ => flowCode_callbackIf (fun _ => ⟨rfl, rfl, rfl⟩) rfl

theorem flowCode_handleEvent (revents : Mask) (r : ReadResult) (w : WriteResult) :
    FlowCode (handleEvent revents r w) := by
  have hguard : ∀ b, FlowCode (Code.modify (setEventHandling b)) :=
    fun b => flowCode_modify fun t => silent_conn rfl rfl rfl ⟨rfl, rfl⟩ rfl
  refine (hguard true).bind fun _ => flowCode_handleClose.when.bind fun _ => ?_
  refine Code.Each.bind (Code.Each.when Code.each_pure) fun _ => (flowCode_handleRead r).when.bind fun _ => ?_
  exact Code.Each.bind (Code.Each.when (Code.each_modify.mpr fun _ _ _ hs => hs.handleWrite w)) fun _ => hguard false

theorem flowCode_api (op : Op) : FlowCode (api op) := by
  cases op with
  | send message result =>
    refine Code.each_modify.mpr fun mark s calls hs => ?_
    unfold send
    split
    · exact hs.sendInLoop message result
    · exact hs
  | shutdown => exact flowCode_modify silent_shutdown
  | forceClose => exact flowCode_forceClose
  | startRead => exact flowCode_modify silent_startReadInLoop
  | stopRead => exact flowCode_modify silent_stopReadInLoop
  | connectDestroyed => exact flowCode_connectDestroyed
  | callElsewhere call => exact flowCode_modify (silent_callElsewhere call)
  | stepElsewhere e => exact Code.each_modify.mpr fun _ _ _ hs => hs.stepElsewhere e

theorem FlowCode.wp {x : Code Site ConnCallback Unit} (hx : FlowCode x) {w : Site × List ConnCallback}
    (hw : Flow mark w) : x.watch.wp (Flow mark) (fun _ _ => True) (fun _ => Flow mark) w := by
  refine Code.Each.wp_watch hx (fun f hf w hw => hf mark w.1 w.2 hw) (fun c hc w hw => ?_) hw
  refine ⟨hw.watching, hw.stream, ?_, hw.elsewhere, hw.writing⟩
  rw [List.reverse_cons, List.filter_append, List.filter_cons_of_neg (by simp [hc]), List.filter_nil, List.append_nil]
  exact hw.told

def setFunctors (functors : List Functor) (s : Site) : Site :=
  { s with loop := { s.loop with queue := { s.loop.queue with functors := functors } } }

theorem queued_setFunctors {f : Functor} {rest : List Functor} (h : s.loop.queue.functors = f :: rest) :
    s.queued = f.notice?.toList ++ (setFunctors rest s).queued := by
  rw [queued, queued, h]
  cases f <;> rfl

/-- A functor that is not one of the flow is taken out of the batch. -/
theorem Flow.setFunctors {f : Functor} {rest : List Functor} (h : Flow mark (s, calls))
    (hfunctors : s.loop.queue.functors = f :: rest) (hnone : f.notice? = none) :
    Flow mark (setFunctors rest s, calls) := by
  have hqueued := queued_setFunctors hfunctors
  rw [hnone, Option.toList_none, List.nil_append] at hqueued
  exact h.silent (silent_of_conn rfl hqueued.symm fun _ he => .inl he)

/-- A functor of the flow is taken out of the batch and called. -/
theorem Flow.called {f : Functor} {rest : List Functor} {c : ConnCallback} (h : Flow mark (s, calls))
    (hfunctors : s.loop.queue.functors = f :: rest) (hc : f.notice? = some c) (hnotice : c.isNotice = true) :
    Flow mark (Site.setFunctors rest s, c :: calls) := by
  refine ⟨⟨h.watching.mark, h.watching.writeComplete, h.watching.highWaterMark⟩, h.stream, ?_, h.elsewhere, h.writing⟩
  have htold := h.told
  rw [queued_setFunctors hfunctors, hc] at htold
  rw [List.reverse_cons, List.filter_append, List.filter_cons_of_pos hnotice, List.filter_nil, List.append_assoc]
  exact htold

theorem Flow.wp_runFunctor {f : Functor} {rest : List Functor} (result : WriteResult) (h : Flow mark (s, calls))
    (hfunctors : s.loop.queue.functors = f :: rest) :
    (runFunctor f result).watch.wp (Flow mark) (fun _ _ => True) (fun _ => Flow mark) (Site.setFunctors rest s, calls) := by
  cases f with
  | sendInLoop i message =>
    exact FlowCode.wp (Code.each_modify.mpr fun _ _ _ hs => hs.sendInLoop message result) (h.setFunctors hfunctors rfl)
  | shutdownInLoop i => exact FlowCode.wp (flowCode_modify silent_shutdownInLoop) (h.setFunctors hfunctors rfl)
  | forceCloseInLoop i => exact FlowCode.wp flowCode_forceCloseInLoop (h.setFunctors hfunctors rfl)
  | startReadInLoop i => exact FlowCode.wp (flowCode_modify silent_startReadInLoop) (h.setFunctors hfunctors rfl)
  | stopReadInLoop i => exact FlowCode.wp (flowCode_modify silent_stopReadInLoop) (h.setFunctors hfunctors rfl)
  | resetChannel k n => exact h.setFunctors hfunctors rfl
  | writeComplete i =>
    have hset : (Site.setFunctors rest s).conn.writeCompleteCallback = true := h.watching.writeComplete
    change (Code.when _ _).watch.wp _ _ _ _
    rw [Code.when, if_pos hset]
    exact ⟨h.called hfunctors rfl rfl, fun _ ht _ => ht⟩
  | highWaterMark i len =>
    have hset : (Site.setFunctors rest s).conn.highWaterMarkCallback = true := h.watching.highWaterMark
    change (Code.when _ _).watch.wp _ _ _ _
    rw [Code.when, if_pos hset]
    exact ⟨h.called hfunctors rfl rfl, fun _ ht _ => ht⟩

theorem Flow.wp_top (t : Top) (h : Flow mark (s, calls)) (hen : enabled t s = true) :
    (top t).watch.wp (Flow mark) (fun _ _ => True) (fun _ => Flow mark) (s, calls) := by
  cases t with
  | connectEstablished => exact flowCode_connectEstablished.wp h
  | handleEvent revents r w => exact (flowCode_handleEvent revents r w).wp h
  | doPendingFunctors =>
    have hempty : s.loop.queue.functors = [] := List.isEmpty_iff.mp hen
    refine h.silent (t := { s with loop := { s.loop with queue := s.loop.queue.swapFunctors } })
      (silent_of_conn rfl ?_ fun _ he => .inl he)
    simp [queued, LoopQueue.swapFunctors, hempty]
  | runFunctor result =>
    simp only [top, Code.watch_bind, Code.wp_bind, Code.wp_watch_get]
    cases hfunctors : s.loop.queue.functors with
    | nil => exact h
    | cons f rest => exact h.wp_runFunctor result hfunctors

end Code

/-! ## Every run -/

theorem flow_keeps (mark : Nat) :
    system.watched.Keeps ⟨fun _ _ => True, fun _ _ => True⟩ (Flow mark) (Flow mark) fun _ _ => True where
  refl _ := trivial
  trans _ _ := trivial
  inner h := h
  outer _ h _ := h
  api {op _} h _ := Code.wp_mono (fun _ _ ht => ⟨ht, trivial⟩) ((flowCode_api op).wp h)
  top {t _} h hen _ := h.wp_top t hen

/-- A new connection with both callbacks set. -/
def watching (mark id fd : Nat) : Site :=
  { conn :=
    { id, channel := { id := .connection id, fd }, highWaterMark := mark, writeCompleteCallback := true
      highWaterMarkCallback := true } }

theorem flow_watching (mark id fd : Nat) : Flow mark (watching mark id fd, []) where
  watching := ⟨rfl, rfl, rfl⟩
  stream := Buffer.readableSpan_new (n := Buffer.kInitialSize)
  told := rfl
  elsewhere := List.forall_mem_nil _
  writing _ := by
    have hempty : (watching mark id fd).conn.outputBuffer.readableSpan = [] := Buffer.readableSpan_new
    refine iff_of_false ?_ fun h => h hempty
    simp [watching, Channel.isWriting, Mask.has]

/-- In every run of a connection, whatever its users call in callbacks and in other threads and whenever it goes down,
the notices of the flow that were called, followed by those that are queued, are what the history of the output buffer
asks for: one for each time it grows to the mark from below, with its size, and one for each write that leaves it
empty. A user who was last told of the mark has bytes in the buffer, and until the connection is down the channel is
writing, so another notice is to come. -/
theorem flow_control {mark id fd : Nat} {es : List (Reentrant.Event Op Top)} {c : Config Site ConnCallback}
    (h : system.stepper.Run (fun _ _ => True) ⟨watching mark id fd, []⟩ es c) :
    ∃ calls, system.watched.stepper.Run (fun _ _ => True) ⟨(watching mark id fd, []), []⟩ es (c.watch calls) ∧
      calls.reverse.filter ConnCallback.isNotice ++ c.state.queued = notices mark c.state.conn.log ∧
      backlog c.state.conn.log = c.state.conn.outputBuffer.readableBytes ∧
      ∀ len, (notices mark c.state.conn.log).getLast? = some (.highWaterMark len) →
        mark ≤ len ∧ 0 < c.state.conn.outputBuffer.readableBytes ∧
          (.setState .kDisconnected ∉ c.state.conn.log → c.state.conn.channel.isWriting = true) := by
  obtain ⟨calls, hrun⟩ := Reentrant.watched_run h []
  have hcond : system.watched.stepper.Run (fun c e => Reentrant.Cond.holds ⟨fun _ _ => True, fun _ _ => True⟩ c e)
      ⟨(watching mark id fd, []), []⟩ es (c.watch calls) := by
    refine hrun.mono fun _ e _ => ?_
    cases e <;> trivial
  have hflow : Flow mark (c.state, calls) := ((flow_keeps mark).run (flow_watching mark id fd) hcond).1
  have hbacklog := backlog_eq hflow.stream
  rw [Buffer.length_readableSpan] at hbacklog
  refine ⟨calls, hrun, hflow.told, hbacklog, ?_⟩
  intro len hlast
  obtain ⟨hmark, hpos⟩ := backlog_pos_of_last hlast
  rw [hbacklog] at hpos
  refine ⟨hmark, hpos, fun hopen => (hflow.writing hopen).mpr fun hempty => ?_⟩
  exact Nat.ne_of_gt hpos (Buffer.readableBytes_eq_zero.mpr hempty)

/-- A message of which one byte is written at once, and the others by the loop. -/
def sentInParts : List (Reentrant.Event Op Top) :=
  [.top .connectEstablished, .call (.send [1, 2, 3] (.wrote 1)), .ret, .top (.handleEvent POLLOUT (.error 0) (.wrote 2)),
    .top .doPendingFunctors, .top (.runFunctor (.wrote 0)), .ret]

theorem flow_control_parts :
    ∃ (c : Config Site ConnCallback) (calls : List ConnCallback),
      system.watched.stepper.Run (fun _ _ => True) ⟨(watching 2 0 3, []), []⟩ sentInParts (c.watch calls) ∧
      calls.reverse.filter ConnCallback.isNotice = [.highWaterMark 2] ∧ c.state.queued = [.writeComplete] := by
  have hreplay : (system.stepper.checked (fun _ _ => True) ⟨watching 2 0 3, []⟩ sentInParts).any (fun c =>
      decide (c.state.queued = [.writeComplete] ∧
        notices 2 c.state.conn.log = [.highWaterMark 2, .writeComplete])) = true := by
    decide +kernel
  obtain ⟨c, hrun, htest⟩ := Stepper.Run.of_any hreplay
  obtain ⟨hqueued, hnotices⟩ := of_decide_eq_true htest
  obtain ⟨calls, hwatched, htold, -⟩ := flow_control hrun
  rw [hqueued, hnotices] at htold
  change _ ++ [ConnCallback.writeComplete] = [ConnCallback.highWaterMark 2] ++ [ConnCallback.writeComplete] at htold
  exact ⟨c, calls, hwatched, List.append_cancel_right htold, hqueued⟩

end Site
end Muduo
