import Muduo.TcpConnection

/-! # Rules for the functions of a connection

What a property has to show of the small steps of the output functions to be kept by them, and weakest
preconditions of the functions that run callbacks. The invariants of a connection are proved through these
rules and do not unfold the functions. -/

namespace Muduo
open Lib

namespace ConnEvent

def isOutput : ConnEvent → Bool
  | .sendInLoop _ _ | .handleWrite _ _ | .shutdownWrite => true
  | _ => false

end ConnEvent

/-- The functors that run a callback of the user. -/
def Functor.isCallback : Functor → Bool
  | .writeComplete _ | .highWaterMark _ _ => true
  | _ => false

/-- Nothing is there to read: the peer has closed the connection. -/
def ReadResult.isEof : ReadResult → Bool
  | .read data => data.isEmpty
  | .error _ => false

namespace Mask

/-- The dispatch calls the close callback of the channel. -/
def hangsUp (revents : Mask) : Prop := revents.has POLLHUP ∧ ¬revents.has POLLIN

/-- The dispatch calls the read callback of the channel. -/
def isReadable (revents : Mask) : Prop := revents.has (POLLIN ||| POLLPRI ||| POLLRDHUP)

instance (revents : Mask) : Decidable revents.hangsUp := inferInstanceAs (Decidable (_ ∧ _))

instance (revents : Mask) : Decidable revents.isReadable := inferInstanceAs (Decidable (_ = _))

end Mask

namespace Site

/-- A property that the small steps of the output functions keep. -/
structure KeptByOutput (P : Site → Prop) : Prop where
  record : ∀ {s e}, ConnEvent.isOutput e = true → P s → P (s.record e)
  queue : ∀ {s f}, Functor.isCallback f = true → P s → P (s.queueInLoop f)
  append : ∀ {s data}, P s → P (s.appendOutput data)
  retrieve : ∀ {s len}, P s → P (s.retrieveOutput len)
  enable : ∀ {s}, s.conn.state ≠ .kDisconnected → P s → P (s.onChannel Channel.enableWriting)
  disable : ∀ {s}, s.conn.channel.isWriting = true → P s → P (s.onChannel Channel.disableWriting)

section Output
variable {P : Site → Prop} {s : Site} {message rest : Bytes} {result : WriteResult}

theorem KeptByOutput.queueWriteComplete (k : KeptByOutput P) (h : P s) : P s.queueWriteComplete := by
  unfold Site.queueWriteComplete
  split
  · exact k.queue rfl h
  · exact h

theorem KeptByOutput.sendLater (k : KeptByOutput P) (hs : s.conn.state ≠ .kDisconnected) (h : P s) :
    P (s.sendLater rest) := by
  have hqueue : ∀ n m, P (s.queueHighWaterMark n m) ∧ (s.queueHighWaterMark n m).conn = s.conn := by
    intro n m
    unfold queueHighWaterMark
    split
    · exact ⟨k.queue rfl h, rfl⟩
    · exact ⟨h, rfl⟩
  obtain ⟨hq, hconn⟩ := hqueue s.conn.outputBuffer.readableBytes rest.length
  unfold Site.sendLater
  dsimp only
  split
  · exact k.append hq
  · refine k.enable ?_ (k.append hq)
    simp only [appendOutput, hconn]
    exact hs

theorem KeptByOutput.sendInLoop (k : KeptByOutput P) (h : P s) : P (s.sendInLoop message result) := by
  unfold Site.sendInLoop
  split
  case isTrue => exact h
  case isFalse hs =>
    have hrecord : ∀ d, P (s.record (.sendInLoop message d)) := fun d => k.record rfl h
    have hlater : ∀ d rest, P ((s.record (.sendInLoop message d)).sendLater rest) :=
      fun d rest => k.sendLater hs (hrecord d)
    dsimp only
    unfold sendRest
    split
    · dsimp only
      split
      · exact k.queueWriteComplete (hrecord _)
      · exact hlater _ _
    · dsimp only
      split
      · exact hrecord _
      · exact hlater _ _
    · split
      · exact hrecord _
      · exact hlater _ _

theorem KeptByOutput.send (k : KeptByOutput P) (h : P s) : P (s.send message result) := by
  unfold Site.send
  split
  · exact k.sendInLoop h
  · exact h

theorem KeptByOutput.shutdownInLoop (k : KeptByOutput P) (h : P s) : P s.shutdownInLoop := by
  unfold Site.shutdownInLoop
  split
  · exact h
  · exact k.record rfl h

theorem KeptByOutput.drained (k : KeptByOutput P) (hwriting : s.conn.channel.isWriting = true) (h : P s) :
    P s.drained := by
  have hqueued := k.queueWriteComplete (k.disable hwriting h)
  unfold Site.drained
  dsimp only
  split
  · exact k.shutdownInLoop hqueued
  · exact hqueued

theorem KeptByOutput.handleWrite (k : KeptByOutput P) (h : P s) : P (s.handleWrite result) := by
  unfold Site.handleWrite
  split
  case isFalse => exact h
  case isTrue hwriting =>
    have hrecord : P (s.record (.handleWrite s.conn.outputBuffer.readableSpan result)) := k.record rfl h
    unfold handleWritten
    split
    · exact hrecord
    · dsimp only
      split
      · exact k.drained hwriting (k.retrieve hrecord)
      · exact k.retrieve hrecord
    · exact hrecord

end Output

/-! ## Functions that run callbacks -/

section Callbacks
variable {C : Type} {I : Site → Prop} {R : Site → Site → Prop} {s : Site}

theorem wp_callbackIf {Q : Unit → Site → Prop} {isSet : TcpConnection → Bool} {e : TcpConnection → ConnEvent}
    {c : C}
    (hset : isSet s.conn = true → I (s.record (e s.conn)) ∧ ∀ t, I t → R (s.record (e s.conn)) t → Q () t)
    (hunset : isSet s.conn = false → Q () s) : (callbackIf isSet e c).wp I R Q s := by
  simp only [callbackIf, Code.wp_bind, Code.wp_get]
  refine Code.wp_when (fun h => ?_) (fun h => hunset (Bool.not_eq_true _ ▸ h))
  simp only [Code.wp_bind, Code.wp_modify, Code.wp_callback]
  exact hset h

def Open (s : Site) : Prop := s.conn.state = .kConnected ∨ s.conn.state = .kDisconnecting

instance (s : Site) : Decidable (Open s) := inferInstanceAs (Decidable (_ ∨ _))

theorem open_iff (s : Site) : Open s ↔ s.conn.state ≠ .kConnecting ∧ s.conn.state ≠ .kDisconnected := by
  unfold Open
  cases s.conn.state <;> simp

theorem eq_kDisconnected_of_not_open (h : ¬Open s) (hs : s.conn.state ≠ .kConnecting) :
    s.conn.state = .kDisconnected :=
  Decidable.not_not.mp fun hne => h ((open_iff s).mpr ⟨hs, hne⟩)

theorem wp_forceCloseInLoop {Q : Unit → Site → Prop} (hclose : Open s → handleClose.wp I R Q s)
    (hskip : ¬Open s → Q () s) : forceCloseInLoop.wp I R Q s := by
  simp only [forceCloseInLoop, Code.wp_bind, Code.wp_get]
  exact Code.wp_when hclose hskip

theorem wp_forceClose {Q : Unit → Site → Prop}
    (hclose : Open s → handleClose.wp I R Q (s.setState .kDisconnecting)) (hskip : ¬Open s → Q () s) :
    forceClose.wp I R Q s := by
  simp only [forceClose, Code.wp_bind, Code.wp_get]
  refine Code.wp_when (fun h => ?_) hskip
  simp only [Code.wp_bind, Code.wp_modify]
  exact wp_forceCloseInLoop (fun _ => hclose h) fun hno => absurd (Or.inr rfl) hno

theorem take_readCapacity_isEmpty {b : Buffer} {data : Bytes} :
    (data.take b.readCapacity).isEmpty = data.isEmpty := by
  have hpos : b.readCapacity ≠ 0 := by
    unfold Buffer.readCapacity Buffer.extraBufferSize
    split <;> omega
  rw [Bool.eq_iff_iff, List.isEmpty_iff, List.isEmpty_iff, List.take_eq_nil_iff]
  exact or_iff_right hpos

theorem wp_handleRead {Q : Unit → Site → Prop} {r : ReadResult} (hclose : r.isEof = true → handleClose.wp I R Q s)
    (hmessage : r.isEof = false → ∀ data,
      (callbackIf (·.messageCallback) (fun _ => .messageCallback) ConnCallback.message).wp I R Q (s.readFd data))
    (herror : r.isEof = false → Q () s) : (handleRead r).wp I R Q s := by
  cases r with
  | error errno => exact herror rfl
  | read data =>
    simp only [handleRead, Code.wp_bind, Code.wp_get, take_readCapacity_isEmpty]
    refine Code.wp_ite (fun heof => hclose heof) (fun hdata => ?_)
    simp only [Code.wp_bind, Code.wp_modify]
    exact hmessage (Bool.not_eq_true _ ▸ hdata) _

/-- A dispatch, with `A` between the close callback and the read callback, and `B` after it. -/
theorem wp_handleEvent {Q : Unit → Site → Prop} {A B : Site → Prop} {revents : Mask} {r : ReadResult}
    {w : WriteResult}
    (hclose : revents.hangsUp → handleClose.wp I R (fun _ t => A t) (s.setEventHandling true))
    (hskip : ¬revents.hangsUp → A (s.setEventHandling true))
    (hread : revents.isReadable → ∀ t, A t → (handleRead r).wp I R (fun _ u => B u) t)
    (hnoRead : ∀ t, A t → B t)
    (hwrite : ∀ t, B t → B (t.handleWrite w))
    (hend : ∀ t, B t → Q () (t.setEventHandling false)) : (handleEvent revents r w).wp I R Q s := by
  simp only [handleEvent, Channel.handleEventWithGuard, Code.wp_bind, Code.wp_modify]
  refine Code.wp_mono (Q := fun _ t => A t) (fun _ t ht => ?_) (Code.wp_when hclose hskip)
  refine Code.wp_mono (Q := fun _ t => A t) (fun _ t ht => ?_) (Code.wp_when (fun _ => ht) (fun _ => ht))
  refine Code.wp_mono (Q := fun _ t => B t) (fun _ t ht => ?_)
    (Code.wp_when (fun h => hread h t ht) (fun _ => hnoRead t ht))
  exact Code.wp_when (fun _ => hend _ (hwrite t ht)) (fun _ => hend t ht)

end Callbacks
end Site
end Muduo
