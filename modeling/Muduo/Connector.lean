import Muduo.Channel

/-! # Connectors

A `Connector` makes one socket after the other until one of them is connected. While an attempt is in
progress its socket has a channel; when the attempt is over the channel is removed from the loop at once, and
destroyed by a functor, since it may be the channel that is being dispatched. -/

namespace Muduo
open Lib

def EINTR : Nat := 4
def EAGAIN : Nat := 11
def EADDRINUSE : Nat := 98
def EADDRNOTAVAIL : Nat := 99
def ENETUNREACH : Nat := 101
def EISCONN : Nat := 106
def ECONNREFUSED : Nat := 111
def EINPROGRESS : Nat := 115

/-- What the system calls of an attempt give: a new socket, and zero or the errno of `connect`. -/
structure Attempt where
  sockfd : Nat
  errno : Nat

inductive States where
  | kDisconnected
  | kConnecting
  | kConnected
  deriving DecidableEq

/-- The asserts of `Connector.cc`, and those of `~Channel` for its channel. -/
inductive ConnectorAssert where
  | startDisconnected
  | connectingNoChannel
  | writeDisconnected
  | destroyedHandling
  | destroyedAdded
  deriving DecidableEq

/-- What becomes of the sockets. -/
inductive SocketEvent where
  | created (sockfd : Nat)
  | closed (sockfd : Nat)
  | passed (sockfd : Nat)
  deriving DecidableEq

/-- A run of a `resetChannel` functor: the attempt for which it was queued, and the attempt whose channel it
    destroyed. -/
structure ChannelReset where
  queuedFor : Nat
  destroyed : Option Nat
  deriving DecidableEq

structure Connector where
  id : Nat
  connect : Bool := false
  state : States := .kDisconnected
  channel : Option Channel := none
  newConnectionCallback : Bool := true
  retryDelayMs : Nat := 500
  /-- The retry timers of the connector that wait, with their delays. -/
  retryTimers : List Nat := []
  made : Nat := 0
  sockets : List SocketEvent := []
  resets : List ChannelReset := []
  failed : List ConnectorAssert := []

/-- The attempt whose channel a functor was queued to reset, if it is one of connector `k`. -/
def Functor.reset? (k : Nat) : Functor → Option Nat
  | .resetChannel j n => if j = k then some n else none
  | _ => none

/-- The resets of connector `k` that are queued. -/
def EventLoop.resets (k : Nat) (l : EventLoop) : List Nat :=
  (l.queue.functors ++ l.queue.pendingFunctors).filterMap (Functor.reset? k)

/-- The attempt to which a channel belongs. -/
def ChannelId.attempt : ChannelId → Nat
  | .connector _ n => n
  | .connection _ => 0

structure ConnectorSite where
  connector : Connector
  loop : EventLoop := {}

namespace ConnectorSite

def kInitRetryDelayMs : Nat := 500
def kMaxRetryDelayMs : Nat := 30 * 1000

def setState (state : States) (s : ConnectorSite) : ConnectorSite :=
  { s with connector := { s.connector with state := state } }

def socketEvent (e : SocketEvent) (s : ConnectorSite) : ConnectorSite :=
  { s with connector := { s.connector with sockets := e :: s.connector.sockets } }

def assertThat (a : ConnectorAssert) (holds : Bool) (s : ConnectorSite) : ConnectorSite :=
  if holds then s else { s with connector := { s.connector with failed := a :: s.connector.failed } }

def setChannel (c : Option Channel) (s : ConnectorSite) : ConnectorSite :=
  { s with connector := { s.connector with channel := c } }

def onChannel (f : Channel → EventLoop → EventLoop × Channel) (s : ConnectorSite) : ConnectorSite :=
  match s.connector.channel with
  | none => s
  | some c =>
    let (l, c) := f c s.loop
    { s.setChannel (some c) with loop := l }

def destroyChannel (s : ConnectorSite) : ConnectorSite :=
  match s.connector.channel with
  | none => s
  | some c =>
    ((s.assertThat .destroyedHandling !c.eventHandling).assertThat .destroyedAdded !c.addedToLoop).setChannel none

def makeChannel (sockfd : Nat) (s : ConnectorSite) : ConnectorSite :=
  let s := s.destroyChannel
  { s with
    connector :=
      { s.connector with
        channel := some { id := .connector s.connector.id s.connector.made, fd := sockfd }
        made := s.connector.made + 1 } }

def connecting (sockfd : Nat) (s : ConnectorSite) : ConnectorSite :=
  let s := s.setState .kConnecting
  let s := s.assertThat .connectingNoChannel s.connector.channel.isNone
  (s.makeChannel sockfd).onChannel Channel.enableWriting

def retry (sockfd : Nat) (s : ConnectorSite) : ConnectorSite :=
  let s := (s.socketEvent (.closed sockfd)).setState .kDisconnected
  if s.connector.connect then
    { s with
      connector :=
        { s.connector with
          retryTimers := s.connector.retryTimers ++ [s.connector.retryDelayMs]
          retryDelayMs := min (s.connector.retryDelayMs * 2) kMaxRetryDelayMs } }
  else s

def connect (a : Attempt) (s : ConnectorSite) : ConnectorSite :=
  let s := s.socketEvent (.created a.sockfd)
  if a.errno = 0 ∨ a.errno = EINPROGRESS ∨ a.errno = EINTR ∨ a.errno = EISCONN then s.connecting a.sockfd
  else if a.errno = EAGAIN ∨ a.errno = EADDRINUSE ∨ a.errno = EADDRNOTAVAIL ∨ a.errno = ECONNREFUSED ∨
      a.errno = ENETUNREACH then s.retry a.sockfd
  else s.socketEvent (.closed a.sockfd)

def startInLoop (a : Attempt) (s : ConnectorSite) : ConnectorSite :=
  let s := s.assertThat .startDisconnected (s.connector.state = .kDisconnected)
  if s.connector.connect then s.connect a else s

def start (a : Attempt) (s : ConnectorSite) : ConnectorSite :=
  startInLoop a { s with connector := { s.connector with connect := true } }

def restart (a : Attempt) (s : ConnectorSite) : ConnectorSite :=
  let s := s.setState .kDisconnected
  startInLoop a { s with connector := { s.connector with retryDelayMs := kInitRetryDelayMs, connect := true } }

def retryTimer (a : Attempt) (s : ConnectorSite) : ConnectorSite :=
  match s.connector.retryTimers with
  | [] => s
  | _ :: timers => startInLoop a { s with connector := { s.connector with retryTimers := timers } }

def removeAndResetChannel (s : ConnectorSite) : ConnectorSite :=
  let s := (s.onChannel Channel.disableAll).onChannel Channel.remove
  match s.connector.channel with
  | none => s
  | some c => { s with loop := s.loop.queueInLoop (.resetChannel s.connector.id c.id.attempt) }

/-- The attempts whose channels are to be reset by a functor. -/
def queuedResets (s : ConnectorSite) : List Nat := s.loop.resets s.connector.id

/-- `resetChannel`, in the functor that was queued for attempt `n`. -/
def resetChannel (n : Nat) (s : ConnectorSite) : ConnectorSite :=
  let r : ChannelReset := ⟨n, s.connector.channel.map (·.id.attempt)⟩
  destroyChannel { s with connector := { s.connector with resets := r :: s.connector.resets } }

def sockfd (s : ConnectorSite) : Nat := (s.connector.channel.map (·.fd)).getD 0

def stopInLoop (s : ConnectorSite) : ConnectorSite :=
  if s.connector.state = .kConnecting then
    let s := s.setState .kDisconnected
    s.removeAndResetChannel.socketEvent (.closed s.sockfd)
  else s

/-- The destructor in the loop thread: the channel goes, and its socket is left open. -/
def destroy (s : ConnectorSite) : ConnectorSite :=
  ((s.onChannel Channel.disableAll).onChannel Channel.remove).destroyChannel

def handleError (s : ConnectorSite) : ConnectorSite :=
  if s.connector.state = .kConnecting then s.removeAndResetChannel.retry s.sockfd else s

/-- `handleWrite`, with the error of the socket and the result of `isSelfConnect`. Its callback gets the
    socket. -/
def handleWrite (soError : Nat) (isSelfConnect : Bool) : Code ConnectorSite Nat Unit := do
  let s ← Code.get
  if s.connector.state = .kConnecting then do
    Code.modify removeAndResetChannel
    if soError ≠ 0 ∨ isSelfConnect then Code.modify (retry s.sockfd)
    else do
      Code.modify (setState .kConnected)
      if s.connector.connect ∧ s.connector.newConnectionCallback then do
        Code.modify (socketEvent (.passed s.sockfd))
        Code.callback s.sockfd
      else Code.modify (socketEvent (.closed s.sockfd))
  else Code.modify (assertThat .writeDisconnected (s.connector.state = .kDisconnected))

/-- Set on the channel of attempt `n`, if it is still there. -/
def setEventHandling (n : Nat) (b : Bool) (s : ConnectorSite) : ConnectorSite :=
  match s.connector.channel with
  | none => s
  | some c => if c.id.attempt = n then s.setChannel (some { c with eventHandling := b }) else s

/-- `Channel::handleEvent` of the channel of attempt `n`. -/
def handleEvent (n : Nat) (revents : Mask) (soError : Nat) (isSelfConnect : Bool) : Code ConnectorSite Nat Unit :=
  Channel.handleEventWithGuard (setEventHandling n) revents (pure ()) (Code.modify handleError) (pure ())
    (handleWrite soError isSelfConnect)

end ConnectorSite
end Muduo
