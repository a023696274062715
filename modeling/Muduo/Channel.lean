import Muduo.Buffer
import Muduo.EventLoop
import Muduo.Lib.Reentrant

/-! # Channels and the poller

A `Channel` is what the loop knows about a file descriptor. Each change of its event mask goes through
`Channel::update` to `EPollPoller::updateChannel`, which keeps a map from descriptors to channels and the
interest list of the kernel. -/

namespace Muduo
open Lib

abbrev Mask := BitVec 32

def POLLIN : Mask := 0x0001
def POLLPRI : Mask := 0x0002
def POLLOUT : Mask := 0x0004
def POLLERR : Mask := 0x0008
def POLLHUP : Mask := 0x0010
def POLLNVAL : Mask := 0x0020
def POLLRDHUP : Mask := 0x2000

def Mask.has (m bits : Mask) : Bool := m &&& bits != 0

theorem Mask.has_or (m a b : Mask) : m.has (a ||| b) = (m.has a || m.has b) := by
  have h : m &&& (a ||| b) = (m &&& a) ||| (m &&& b) := BitVec.and_or_distrib_left
  have hzero : (m &&& a) ||| (m &&& b) = 0#32 ↔ m &&& a = 0#32 ∧ m &&& b = 0#32 := BitVec.or_eq_zero_iff
  rw [Bool.eq_iff_iff, Bool.or_eq_true, Mask.has, Mask.has, Mask.has, bne_iff_ne, bne_iff_ne, bne_iff_ne, h,
    ← Classical.not_and_iff_not_or_not]
  exact not_congr hzero

/-- The channels of a loop, as pointers. A connector makes a new channel for each attempt. -/
inductive ChannelId where
  | connection (i : Nat)
  | connector (k n : Nat)
  deriving DecidableEq

/-- What the modelled code queues in the loop. -/
inductive Functor where
  | sendInLoop (i : Nat) (message : Bytes)
  | shutdownInLoop (i : Nat)
  | forceCloseInLoop (i : Nat)
  | startReadInLoop (i : Nat)
  | stopReadInLoop (i : Nat)
  | writeComplete (i : Nat)
  | highWaterMark (i len : Nat)
  /-- `resetChannel`, with the attempt whose channel was removed when it was queued. -/
  | resetChannel (k n : Nat)
  deriving DecidableEq

inductive ChannelAssert where
  | removeNoneEvent
  deriving DecidableEq

structure Channel where
  id : ChannelId
  fd : Nat
  events : Mask := 0
  index : Int := -1
  eventHandling : Bool := false
  addedToLoop : Bool := false
  failed : List ChannelAssert := []

namespace Channel

def kNoneEvent : Mask := 0
def kReadEvent : Mask := POLLIN ||| POLLPRI
def kWriteEvent : Mask := POLLOUT

def isNoneEvent (c : Channel) : Bool := c.events == kNoneEvent

def isWriting (c : Channel) : Bool := c.events.has kWriteEvent

def isReading (c : Channel) : Bool := c.events.has kReadEvent

end Channel

/-! ## The poller -/

/-- The asserts of `EPollPoller.cc`, and the system calls whose failure ends the program. -/
inductive PollerAssert where
  | updateContains
  | updateSame
  | updateAdded
  | removeContains
  | removeSame
  | removeNoneEvent
  | removeIndex
  | removeErased
  | ctlAdd
  | ctlMod
  deriving DecidableEq

structure EPollPoller where
  /-- `channels_`, from descriptors to channels. -/
  channels : Nat → Option ChannelId := fun _ => none
  /-- The interest list of the kernel: the channel in `data.ptr` and the mask. -/
  epoll : Nat → Option (ChannelId × Mask) := fun _ => none
  failed : List PollerAssert := []

namespace EPollPoller

def kNew : Int := -1
def kAdded : Int := 1
def kDeleted : Int := 2

def check (p : EPollPoller) (a : PollerAssert) (holds : Bool) : EPollPoller :=
  if holds then p else { p with failed := a :: p.failed }

def setChannel (p : EPollPoller) (fd : Nat) (c : Option ChannelId) : EPollPoller :=
  { p with channels := fun n => if n = fd then c else p.channels n }

def setEpoll (p : EPollPoller) (fd : Nat) (e : Option (ChannelId × Mask)) : EPollPoller :=
  { p with epoll := fun n => if n = fd then e else p.epoll n }

/-- `update` with `EPOLL_CTL_ADD`: it fails for a descriptor that is in the list. -/
def ctlAdd (p : EPollPoller) (c : Channel) : EPollPoller :=
  if (p.epoll c.fd).isNone then p.setEpoll c.fd (some (c.id, c.events)) else p.check .ctlAdd false

/-- `update` with `EPOLL_CTL_MOD`: it fails for a descriptor that is not in the list. -/
def ctlMod (p : EPollPoller) (c : Channel) : EPollPoller :=
  if (p.epoll c.fd).isSome then p.setEpoll c.fd (some (c.id, c.events)) else p.check .ctlMod false

/-- `update` with `EPOLL_CTL_DEL`: a failure is only logged. -/
def ctlDel (p : EPollPoller) (c : Channel) : EPollPoller := p.setEpoll c.fd none

def updateChannel (p : EPollPoller) (c : Channel) : EPollPoller × Int :=
  if c.index = kNew ∨ c.index = kDeleted then
    let p := if c.index = kNew then p.setChannel c.fd (some c.id) else p
    (p.ctlAdd c, kAdded)
  else
    let p := p.check .updateContains (p.channels c.fd).isSome
    let p := p.check .updateSame (p.channels c.fd = some c.id)
    let p := p.check .updateAdded (c.index = kAdded)
    if c.isNoneEvent then (p.ctlDel c, kDeleted) else (p.ctlMod c, c.index)

def removeChannel (p : EPollPoller) (c : Channel) : EPollPoller × Int :=
  let p := p.check .removeContains (p.channels c.fd).isSome
  let p := p.check .removeSame (p.channels c.fd = some c.id)
  let p := p.check .removeNoneEvent c.isNoneEvent
  let p := p.check .removeIndex (c.index = kAdded ∨ c.index = kDeleted)
  let p := p.check .removeErased (p.channels c.fd).isSome
  let p := p.setChannel c.fd none
  (if c.index = kAdded then p.ctlDel c else p, kNew)

end EPollPoller

/-! ## The loop -/

inductive LoopAssert where
  /-- A channel is removed while it waits to be dispatched. -/
  | removeActive
  deriving DecidableEq

/-- `EventLoop`, as far as its channels and functors go. -/
structure EventLoop where
  poller : EPollPoller := {}
  queue : LoopQueue Functor := {}
  eventHandling : Bool := false
  activeChannels : List ChannelId := []
  currentActiveChannel : Option ChannelId := none
  /-- The channels that were removed since the last poll. -/
  removed : List ChannelId := []
  failed : List LoopAssert := []

namespace EventLoop

def updateChannel (l : EventLoop) (c : Channel) : EventLoop × Channel :=
  let (p, index) := l.poller.updateChannel c
  ({ l with poller := p }, { c with index := index })

def mayRemove (l : EventLoop) (id : ChannelId) : Bool :=
  !l.eventHandling || l.currentActiveChannel == some id || !l.activeChannels.contains id

def removeChannel (l : EventLoop) (c : Channel) : EventLoop × Channel :=
  let l := if l.mayRemove c.id then l else { l with failed := .removeActive :: l.failed }
  let (p, index) := l.poller.removeChannel c
  ({ l with poller := p, removed := c.id :: l.removed }, { c with index := index })

def queueInLoop (l : EventLoop) (f : Functor) : EventLoop := { l with queue := l.queue.queueInLoop true f }

end EventLoop

namespace Channel

def update (c : Channel) (l : EventLoop) : EventLoop × Channel := l.updateChannel { c with addedToLoop := true }

def remove (c : Channel) (l : EventLoop) : EventLoop × Channel :=
  let c := if c.isNoneEvent then c else { c with failed := .removeNoneEvent :: c.failed }
  l.removeChannel { c with addedToLoop := false }

/-- The mask is set and the poller told; `enableReading` and its relatives are this with their masks. -/
def setEvents (f : Mask → Mask) (c : Channel) (l : EventLoop) : EventLoop × Channel :=
  ({ c with events := f c.events } : Channel).update l

def enableReading : Channel → EventLoop → EventLoop × Channel := setEvents (· ||| kReadEvent)
def disableReading : Channel → EventLoop → EventLoop × Channel := setEvents (· &&& ~~~kReadEvent)
def enableWriting : Channel → EventLoop → EventLoop × Channel := setEvents (· ||| kWriteEvent)
def disableWriting : Channel → EventLoop → EventLoop × Channel := setEvents (· &&& ~~~kWriteEvent)
def disableAll : Channel → EventLoop → EventLoop × Channel := setEvents fun _ => kNoneEvent

/-- `handleEventWithGuard`, with the callbacks of the channel; one that is not set is `pure ()`. -/
def handleEventWithGuard {σ C : Type} (setEventHandling : Bool → σ → σ) (revents : Mask)
    (closeCallback errorCallback readCallback writeCallback : Code σ C Unit) : Code σ C Unit := do
  Code.modify (setEventHandling true)
  Code.when (revents.has POLLHUP ∧ ¬revents.has POLLIN) closeCallback
  Code.when (revents.has POLLERR ∨ revents.has POLLNVAL) errorCallback
  Code.when (revents.has (POLLIN ||| POLLPRI ||| POLLRDHUP)) readCallback
  Code.when (revents.has POLLOUT) writeCallback
  Code.modify (setEventHandling false)

/-! ## What the operations change -/

section Fields
variable {c : Channel} {l : EventLoop} {f : Mask → Mask}

@[simp] theorem setEvents_id : (c.setEvents f l).2.id = c.id := rfl

theorem isWriting_or (m : Mask) : (m ||| kWriteEvent).has kWriteEvent = true := by
  simp only [Mask.has, kWriteEvent, POLLOUT, bne_iff_ne, ne_eq]
  intro h
  have hbit := congrArg (BitVec.getLsbD · 2) h
  simp at hbit

theorem isWriting_and_not (m : Mask) : (m &&& ~~~kWriteEvent).has kWriteEvent = false := by
  simp [Mask.has, BitVec.and_assoc]

end Fields
end Channel
end Muduo
