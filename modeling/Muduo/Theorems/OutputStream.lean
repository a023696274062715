import Muduo.TcpConnection

/-! # The output stream of a connection

A message reaches the kernel through a direct write, through the output buffer, or in part through each. The
bytes the kernel accepted, followed by what the buffer holds, are at every point the messages in the order
of their sends; and the channel asks for `POLLOUT` exactly while the buffer holds something. -/

namespace Muduo
open Lib

namespace ConnEvent

/-- The bytes that the kernel accepts in an event. -/
def accepted : ConnEvent → Bytes
  | .sendInLoop message (some (.wrote n)) => message.take n
  | .handleWrite offered (.wrote n) => offered.take n
  | _ => []

/-- The bytes that an event adds to the stream: a message, unless its direct write failed with `EPIPE` or
    `ECONNRESET`. -/
def streamed : ConnEvent → Bytes
  | .sendInLoop message (some (.error errno)) => if errno = EPIPE ∨ errno = ECONNRESET then [] else message
  | .sendInLoop message _ => message
  | _ => []

def message? : ConnEvent → Option Bytes
  | .sendInLoop message _ => some message
  | _ => none

end ConnEvent

def accepted (log : List ConnEvent) : Bytes := log.reverse.flatMap ConnEvent.accepted

/-- What the messages of the sends add to the stream, in the order of the sends. -/
def stream (log : List ConnEvent) : Bytes := log.reverse.flatMap ConnEvent.streamed

/-- The messages that were passed to `sendInLoop`, in the order of the calls. -/
def messages (log : List ConnEvent) : List Bytes := log.reverse.filterMap ConnEvent.message?

section Log
variable {e : ConnEvent} {log : List ConnEvent}

@[simp] theorem accepted_cons : accepted (e :: log) = accepted log ++ e.accepted := by simp [accepted]

@[simp] theorem stream_cons : stream (e :: log) = stream log ++ e.streamed := by simp [stream]

@[simp] theorem messages_cons : messages (e :: log) = messages log ++ e.message?.toList := by
  cases h : e.message? <;> simp [messages, h]

end Log

namespace Site

/-! ## What the steps of the output change -/

section Fields
variable {s : Site} {f : Channel → EventLoop → EventLoop × Channel} {e : ConnEvent} {rest : Bytes} {m n : Nat}

@[simp] theorem onChannel_outputBuffer : (s.onChannel f).conn.outputBuffer = s.conn.outputBuffer := rfl
@[simp] theorem onChannel_log : (s.onChannel f).conn.log = s.conn.log := rfl
@[simp] theorem onChannel_state : (s.onChannel f).conn.state = s.conn.state := rfl
@[simp] theorem record_outputBuffer : (s.record e).conn.outputBuffer = s.conn.outputBuffer := rfl
@[simp] theorem record_channel : (s.record e).conn.channel = s.conn.channel := rfl
@[simp] theorem record_log : (s.record e).conn.log = e :: s.conn.log := rfl
@[simp] theorem record_state : (s.record e).conn.state = s.conn.state := rfl

@[simp] theorem queueWriteComplete_conn : s.queueWriteComplete.conn = s.conn := by
  unfold queueWriteComplete
  split <;> rfl

@[simp] theorem queueHighWaterMark_conn : (s.queueHighWaterMark m n).conn = s.conn := by
  unfold queueHighWaterMark
  split <;> rfl

@[simp] theorem isWriting_enableWriting : (s.onChannel Channel.enableWriting).conn.channel.isWriting = true :=
  Channel.isWriting_or _

@[simp] theorem isWriting_disableWriting : (s.onChannel Channel.disableWriting).conn.channel.isWriting = false :=
  Channel.isWriting_and_not _

end Fields

/-! ## One step -/

/-- The bytes of the stream that the kernel has not accepted are in the buffer, and the channel is writing
    exactly while there are any. -/
structure Output (s : Site) : Prop where
  stream : accepted s.conn.log ++ s.conn.outputBuffer.readableSpan = stream s.conn.log
  writing : s.conn.channel.isWriting = true ↔ s.conn.outputBuffer.readableSpan ≠ []

section Steps
variable {s : Site} {message rest : Bytes} {result : WriteResult} {n : Nat}

theorem sendLater_conn (s : Site) (rest : Bytes) :
    (s.sendLater rest).conn.outputBuffer = s.conn.outputBuffer.append rest ∧
      (s.sendLater rest).conn.log = s.conn.log ∧ (s.sendLater rest).conn.state = s.conn.state ∧
      (s.sendLater rest).conn.channel.isWriting = true := by
  unfold sendLater
  dsimp only
  split
  · rename_i hw
    exact ⟨by simp [appendOutput], by simp [appendOutput], by simp [appendOutput], hw⟩
  · exact ⟨by simp [appendOutput], by simp [appendOutput], by simp [appendOutput], by simp⟩

/-- The stream goes on with `rest`, which no write has touched. -/
theorem Output.sendLater (hrest : rest ≠ [])
    (hstream : accepted s.conn.log ++ (s.conn.outputBuffer.readableSpan ++ rest) = Muduo.stream s.conn.log) :
    Output (s.sendLater rest) := by
  obtain ⟨hbuffer, hlog, -, hwriting⟩ := sendLater_conn s rest
  constructor
  · rw [hbuffer, hlog, Buffer.readableSpan_append]
    exact hstream
  · rw [hbuffer, hwriting, Buffer.readableSpan_append]
    simp [hrest]

/-- A message is written directly only when the buffer is empty. -/
theorem Output.readable_of_direct (h : s.writesDirectly = true) : s.conn.outputBuffer.readableSpan = [] := by
  simp only [writesDirectly, Bool.and_eq_true, beq_iff_eq] at h
  exact Buffer.readableBytes_eq_zero.mp h.2

theorem Output.sendInLoop (h : Output s) (hstate : s.conn.state ≠ .kDisconnected) :
    Output (s.sendInLoop message result) := by
  rw [Site.sendInLoop, if_neg hstate]
  cases hdirect : s.writesDirectly
  case false =>
    -- The message goes behind what the buffer holds.
    simp only [Bool.false_eq_true, if_false, sendRest]
    split
    · rename_i hempty
      rw [List.isEmpty_iff] at hempty
      exact ⟨by simpa [hempty, ConnEvent.accepted, ConnEvent.streamed] using h.stream, h.writing⟩
    · rename_i hne
      refine Output.sendLater (by simpa [List.isEmpty_iff] using hne) ?_
      simp [ConnEvent.accepted, ConnEvent.streamed, ← h.stream]
  case true =>
    have hreadable := Output.readable_of_direct hdirect
    have hlog : accepted s.conn.log = Muduo.stream s.conn.log := by
      rw [← h.stream, hreadable, List.append_nil]
    have hwriting : s.conn.channel.isWriting = true ↔ s.conn.outputBuffer.readableSpan ≠ [] := h.writing
    cases result with
    | wrote n =>
      simp only [if_true, sendRest]
      split
      · rename_i hempty
        rw [List.isEmpty_iff, List.drop_eq_nil_iff] at hempty
        refine ⟨?_, by simpa using hwriting⟩
        simp [hreadable, hlog, ConnEvent.accepted, ConnEvent.streamed, List.take_of_length_le hempty]
      · rename_i hne
        refine Output.sendLater (by simpa [List.isEmpty_iff] using hne) ?_
        simp [hreadable, hlog, ConnEvent.accepted, ConnEvent.streamed]
    | error errno =>
      simp only [if_true, sendRest]
      split
      · rename_i hdrop
        refine ⟨?_, hwriting⟩
        -- The message is given up, or there is nothing in it.
        rcases hdrop with ⟨-, hfault⟩ | hempty
        · simp [hreadable, hlog, ConnEvent.accepted, ConnEvent.streamed, hfault]
        · simp [hreadable, hlog, ConnEvent.accepted, ConnEvent.streamed, List.isEmpty_iff.mp hempty]
      · rename_i hkeep
        rw [not_or] at hkeep
        have hfault : ¬(errno = EPIPE ∨ errno = ECONNRESET) := by
          intro hfault
          refine hkeep.1 ⟨?_, hfault⟩
          rcases hfault with rfl | rfl <;> decide
        refine Output.sendLater (by simpa [List.isEmpty_iff] using hkeep.2) ?_
        simp [hreadable, hlog, ConnEvent.accepted, ConnEvent.streamed, hfault]

theorem drained_conn (s : Site) :
    s.drained.conn.outputBuffer = s.conn.outputBuffer ∧ s.drained.conn.channel.isWriting = false ∧
      s.drained.conn.log = (if s.conn.state = .kDisconnecting then .shutdownWrite :: s.conn.log else s.conn.log) ∧
      s.drained.conn.state = s.conn.state := by
  have hoff : (s.onChannel Channel.disableWriting).queueWriteComplete.conn.channel.isWriting = false := by simp
  unfold drained
  dsimp only
  rw [queueWriteComplete_conn, onChannel_state]
  split
  · rw [shutdownInLoop, if_neg (by simp)]
    exact ⟨by simp, hoff, by simp, by simp⟩
  · exact ⟨by simp, hoff, by simp, by simp⟩

/-- The half-close adds nothing to what was accepted and sent. -/
theorem drained_streams (s : Site) :
    accepted s.drained.conn.log = accepted s.conn.log ∧ Muduo.stream s.drained.conn.log = Muduo.stream s.conn.log ∧
      messages s.drained.conn.log = messages s.conn.log := by
  rw [(drained_conn s).2.2.1]
  split
  · simp [ConnEvent.accepted, ConnEvent.streamed, ConnEvent.message?]
  · exact ⟨rfl, rfl, rfl⟩

theorem Output.handleWrite (h : Output s) : Output (s.handleWrite result) := by
  unfold Site.handleWrite
  split
  case isFalse => exact h
  case isTrue hwriting =>
    cases result with
    | error errno =>
      exact ⟨by simpa [handleWritten, ConnEvent.accepted, ConnEvent.streamed] using h.stream, h.writing⟩
    | wrote n =>
      cases n with
      | zero => exact ⟨by simpa [handleWritten, ConnEvent.accepted, ConnEvent.streamed] using h.stream, h.writing⟩
      | succ n =>
        -- What was written leaves the buffer from the front.
        have hstream : accepted s.conn.log ++ (s.conn.outputBuffer.readableSpan.take (n + 1) ++
            s.conn.outputBuffer.readableSpan.drop (n + 1)) = Muduo.stream s.conn.log := by
          rw [List.take_append_drop, h.stream]
        simp only [handleWritten]
        split
        · rename_i hempty
          rw [Buffer.readableBytes_eq_zero] at hempty
          let drained := (s.record (.handleWrite s.conn.outputBuffer.readableSpan
            (.wrote (n + 1)))).retrieveOutput (n + 1)
          obtain ⟨hbuffer, hoff, -, -⟩ := drained_conn drained
          obtain ⟨haccepted, hstreamed, -⟩ := drained_streams drained
          refine ⟨?_, ?_⟩
          · rw [hbuffer, haccepted, hstreamed]
            simpa [drained, retrieveOutput, ConnEvent.accepted, ConnEvent.streamed] using hstream
          · rw [hbuffer, hoff, hempty]
            simp
        · rename_i hne
          rw [Buffer.readableBytes_eq_zero] at hne
          refine ⟨?_, ?_⟩
          · simpa [retrieveOutput, ConnEvent.accepted, ConnEvent.streamed] using hstream
          · exact iff_of_true hwriting hne

end Steps

/-! ## Every run -/

inductive OutputEvent where
  | sendInLoop (message : Bytes) (result : WriteResult)
  | handleWrite (result : WriteResult)

def OutputEvent.message? : OutputEvent → Option Bytes
  | .sendInLoop message _ => some message
  | .handleWrite _ => none

def outputStep (s : Site) : OutputEvent → Option Site
  | .sendInLoop message result => some (s.sendInLoop message result)
  | .handleWrite result => some (s.handleWrite result)

def output : Stepper Site OutputEvent := ⟨outputStep⟩

/-- A connection that is established, before anything was sent on it. -/
structure Established (s : Site) : Prop where
  state : s.conn.state = .kConnected ∨ s.conn.state = .kDisconnecting
  notWriting : s.conn.channel.isWriting = false
  empty : s.conn.outputBuffer.readableSpan = []
  unsent : accepted s.conn.log = [] ∧ stream s.conn.log = [] ∧ messages s.conn.log = []

theorem sendInLoop_log (s : Site) (message : Bytes) (result : WriteResult) (hs : s.conn.state ≠ .kDisconnected) :
    (s.sendInLoop message result).conn.log =
      .sendInLoop message (if s.writesDirectly then some result else none) :: s.conn.log := by
  have hlater : ∀ (t : Site) rest, (t.sendLater rest).conn.log = t.conn.log :=
    fun t rest => (sendLater_conn t rest).2.1
  rw [sendInLoop, if_neg hs]
  unfold sendRest
  dsimp only
  split <;> split <;> simp [hlater]

theorem sendInLoop_state (s : Site) (message : Bytes) (result : WriteResult) :
    (s.sendInLoop message result).conn.state = s.conn.state := by
  have hlater : ∀ (t : Site) rest, (t.sendLater rest).conn.state = t.conn.state :=
    fun t rest => (sendLater_conn t rest).2.2.1
  unfold sendInLoop sendRest
  dsimp only
  split
  · rfl
  · split <;> split <;> simp [hlater]

theorem handleWrite_keeps (s : Site) (result : WriteResult) :
    (s.handleWrite result).conn.state = s.conn.state ∧
      Muduo.stream (s.handleWrite result).conn.log = Muduo.stream s.conn.log ∧
      messages (s.handleWrite result).conn.log = messages s.conn.log := by
  let wrote := s.record (.handleWrite s.conn.outputBuffer.readableSpan result)
  have hwrote : Muduo.stream wrote.conn.log = Muduo.stream s.conn.log ∧ messages wrote.conn.log = messages s.conn.log := by
    simp [wrote, ConnEvent.streamed, ConnEvent.message?]
  unfold handleWrite handleWritten
  split
  · split
    · exact ⟨rfl, hwrote⟩
    · dsimp only
      split
      · obtain ⟨-, hstream, hmessages⟩ := drained_streams (wrote.retrieveOutput _)
        exact ⟨(drained_conn _).2.2.2, hstream.trans hwrote.1, hmessages.trans hwrote.2⟩
      · exact ⟨rfl, hwrote⟩
    · exact ⟨rfl, hwrote⟩
  · exact ⟨rfl, rfl, rfl⟩

/-- One step of a connection that is not down: a send adds its message. -/
theorem Output.step {s t : Site} {e : OutputEvent} (h : Output s) (hs : s.conn.state ≠ .kDisconnected)
    (hstep : outputStep s e = some t) :
    Output t ∧ t.conn.state ≠ .kDisconnected ∧
      messages t.conn.log = messages s.conn.log ++ e.message?.toList := by
  cases e with
  | sendInLoop message result =>
    obtain rfl := Option.some.inj hstep
    refine ⟨h.sendInLoop hs, by rwa [sendInLoop_state], ?_⟩
    rw [sendInLoop_log s message result hs, messages_cons]
    rfl
  | handleWrite result =>
    obtain rfl := Option.some.inj hstep
    obtain ⟨hstate, -, hmessages⟩ := handleWrite_keeps s result
    exact ⟨h.handleWrite, by rwa [hstate], by simpa [OutputEvent.message?] using hmessages⟩

theorem Output.run {s t : Site} {es : List OutputEvent} (h : output.Run (fun _ _ => True) s es t) (hs : Output s)
    (hstate : s.conn.state ≠ .kDisconnected) :
    Output t ∧ t.conn.state ≠ .kDisconnected ∧
      messages t.conn.log = messages s.conn.log ++ es.filterMap OutputEvent.message? := by
  induction h with
  | nil s => exact ⟨hs, hstate, by simp⟩
  | @cons s t u e es _ hstep _ ih =>
    obtain ⟨ht, htstate, hmessages⟩ := hs.step hstate hstep
    obtain ⟨hu, hustate, hmessages'⟩ := ih ht htstate
    refine ⟨hu, hustate, ?_⟩
    rw [hmessages', hmessages]
    cases he : e.message? <;> simp [he]

/-- At every point the bytes that the kernel accepted, followed by the readable bytes of the output buffer,
    are the stream: the messages of the sends in their order, without those whose direct write failed with
    `EPIPE` or `ECONNRESET`. The channel is writing exactly while the buffer is not empty. -/
theorem output_stream {s t : Site} {es : List OutputEvent} (hs : Established s)
    (h : output.Run (fun _ _ => True) s es t) :
    accepted t.conn.log ++ t.conn.outputBuffer.readableSpan = stream t.conn.log ∧
      messages t.conn.log = es.filterMap OutputEvent.message? ∧
      t.conn.state ≠ .kDisconnected ∧
      (t.conn.channel.isWriting = true ↔ t.conn.outputBuffer.readableSpan ≠ []) := by
  obtain ⟨haccepted, hstream, hmessages⟩ := hs.unsent
  have hinit : Output s := by
    refine ⟨?_, by simp [hs.notWriting, hs.empty]⟩
    rw [hs.empty, haccepted, hstream]
    rfl
  have hstate : s.conn.state ≠ .kDisconnected := by
    rcases hs.state with hstate | hstate <;> simp [hstate]
  obtain ⟨hout, hstate', hsent⟩ := Output.run h hinit hstate
  rw [hmessages, List.nil_append] at hsent
  exact ⟨hout.stream, hsent, hstate', hout.writing⟩

/-- A message of which the kernel takes one byte, a message behind it, and a write event. -/
theorem output_stream_partial :
    ∃ t, output.Run (fun _ _ => True)
        { conn :=
          { id := 0, state := .kConnected, channel := { id := .connection 0, fd := 5 }, outputBuffer := .new 2 } }
        [.sendInLoop [1, 2, 3] (.wrote 1), .sendInLoop [4] (.wrote 1), .handleWrite (.wrote 2)] t ∧
      accepted t.conn.log = [1, 2, 3] ∧ stream t.conn.log = [1, 2, 3, 4] ∧
      accepted t.conn.log ++ t.conn.outputBuffer.readableSpan = stream t.conn.log :=
  Stepper.Run.replay rfl fun run =>
    ⟨rfl, rfl, (output_stream ⟨Or.inl rfl, rfl, Buffer.readableSpan_new, rfl, rfl, rfl⟩ run).1⟩

end Site
end Muduo
