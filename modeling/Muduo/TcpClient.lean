import Muduo.Connector
import Muduo.TcpConnection

/-! # Clients on one loop

Any number of `TcpClient`s share a loop. A client owns a connector and, once the connector has a connected
socket, a connection; when the connection is closed the client drops it and, if it is to retry, restarts its
connector. All of this runs synchronously in the loop thread: in the dispatch of a channel, in a functor, in a
retry timer, or in a call that user code makes from one of its callbacks. -/

namespace Muduo
open Lib

inductive ClientAssert where
  /-- `removeConnection` is for the connection of the client. -/
  | removeSame
  deriving DecidableEq

structure TcpClient where
  connector : Connector
  retry : Bool := false
  connect : Bool := true
  connection : Option Nat := none
  failed : List ClientAssert := []

/-- The callbacks of the user, with the connection that they get. -/
inductive UserCallback where
  | connection (i : Nat)
  | message (i : Nat)
  | writeComplete (i : Nat)
  | highWaterMark (i len : Nat)
  deriving DecidableEq

/-- What the system calls return in one event of the loop. -/
structure Results where
  read : ReadResult := .read []
  write : WriteResult := .wrote 0
  soError : Nat := 0
  isSelfConnect : Bool := false
  attempt : Attempt := ⟨0, 0⟩

structure ClientLoop where
  clients : Nat → TcpClient := fun k => { connector := { id := k } }
  /-- The connections, by their numbers in the order in which they were made. -/
  conns : Nat → TcpConnection := fun i => { id := i, channel := { id := .connection i, fd := 0 } }
  owner : Nat → Nat := fun _ => 0
  nextConn : Nat := 0
  loop : EventLoop := {}
  /-- What the loop over `activeChannels_` has still to dispatch. -/
  waiting : List (ChannelId × Mask) := []

namespace ClientLoop

/-! ## Parts of the state -/

def site (i : Nat) (w : ClientLoop) : Site := { conn := w.conns i, loop := w.loop }

def setSite (i : Nat) (s : Site) (w : ClientLoop) : ClientLoop :=
  { w with conns := fun j => if j = i then s.conn else w.conns j, loop := s.loop }

def onClient (k : Nat) (f : TcpClient → TcpClient) (w : ClientLoop) : ClientLoop :=
  { w with clients := fun j => if j = k then f (w.clients k) else w.clients j }

def connectorSite (k : Nat) (w : ClientLoop) : ConnectorSite :=
  { connector := (w.clients k).connector, loop := w.loop }

def setConnectorSite (k : Nat) (s : ConnectorSite) (w : ClientLoop) : ClientLoop :=
  { w.onClient k fun c => { c with connector := s.connector } with loop := s.loop }

def onConnector (k : Nat) (f : ConnectorSite → ConnectorSite) (w : ClientLoop) : ClientLoop :=
  w.setConnectorSite k (f (w.connectorSite k))

/-! ## Clients -/

def resetConnection (i : Nat) (w : ClientLoop) : ClientLoop :=
  w.onClient (w.owner i) fun c =>
    { c with
      failed := if c.connection = some i then c.failed else .removeSame :: c.failed
      connection := none }

def connectDestroyed (i : Nat) : Code ClientLoop UserCallback Unit :=
  (Site.connectDestroyed (UserCallback.connection i)).handle (site i) (setSite i) Code.callback

/-- `TcpClient::removeConnection`; `a` is what the system calls of a new attempt give. -/
def removeConnection (i : Nat) (a : Attempt) : Code ClientLoop UserCallback Unit := do
  Code.modify (resetConnection i)
  connectDestroyed i
  let w ← Code.get
  Code.when ((w.clients (w.owner i)).retry ∧ (w.clients (w.owner i)).connect) do
    Code.modify (onConnector (w.owner i) (ConnectorSite.restart a))

/-- The callbacks that a client gives to its connection `i`. -/
def connCallback (i : Nat) (a : Attempt) : ConnCallback → Code ClientLoop UserCallback Unit
  | .connection => Code.callback (.connection i)
  | .message => Code.callback (.message i)
  | .writeComplete => Code.callback (.writeComplete i)
  | .highWaterMark len => Code.callback (.highWaterMark i len)
  | .close => removeConnection i a

def onConn (i : Nat) (a : Attempt) (x : Code Site ConnCallback Unit) : Code ClientLoop UserCallback Unit :=
  x.handle (site i) (setSite i) (connCallback i a)

def addConnection (k sockfd : Nat) (w : ClientLoop) : ClientLoop :=
  let i := w.nextConn
  let conn : TcpConnection :=
    { id := i, channel := { id := .connection i, fd := sockfd },
      writeCompleteCallback := true, closeCallback := true }
  { w.onClient k fun c => { c with connection := some i } with
    conns := fun j => if j = i then conn else w.conns j
    owner := fun j => if j = i then k else w.owner j
    nextConn := i + 1 }

def newConnection (k sockfd : Nat) : Code ClientLoop UserCallback Unit := do
  let w ← Code.get
  Code.modify (addConnection k sockfd)
  (Site.connectEstablished (UserCallback.connection w.nextConn)).handle (site w.nextConn) (setSite w.nextConn)
    Code.callback

def connect (k : Nat) (a : Attempt) (w : ClientLoop) : ClientLoop :=
  (w.onClient k fun c => { c with connect := true }).onConnector k (ConnectorSite.start a)

/-! ## The loop -/

def isMade (w : ClientLoop) : ChannelId → Bool
  | .connection i => i < w.nextConn
  | .connector k n => n < (w.clients k).connector.made

/-- The channels that `epoll_wait` reports for its ready descriptors. -/
def polled (w : ClientLoop) (ready : List (Nat × Mask)) : List (ChannelId × Mask) :=
  ready.filterMap fun (fd, revents) => (w.loop.poller.epoll fd).map fun (c, _) => (c, revents)

def poll (ready : List (Nat × Mask)) (w : ClientLoop) : ClientLoop :=
  { w with
    waiting := w.polled ready
    loop :=
      { w.loop with eventHandling := true, activeChannels := (w.polled ready).map (·.1), removed := [] } }

/-- `Channel::handleEvent` of an active channel. A channel of a connector that is gone does nothing. -/
def handleEvent (id : ChannelId) (revents : Mask) (r : Results) : Code ClientLoop UserCallback Unit :=
  match id with
  | .connection i => onConn i r.attempt (Site.handleEvent revents r.read r.write)
  | .connector k n => do
    let w ← Code.get
    Code.when ((w.clients k).connector.channel.map (·.id) = some (.connector k n)) do
      (ConnectorSite.handleEvent n revents r.soError r.isSelfConnect).handle (connectorSite k) (setConnectorSite k)
        (newConnection k)

def dispatch (r : Results) : Code ClientLoop UserCallback Unit := do
  let w ← Code.get
  match w.waiting with
  | [] => pure ()
  | (c, revents) :: waiting => do
    Code.modify fun w => { w with waiting := waiting, loop := { w.loop with currentActiveChannel := some c } }
    handleEvent c revents r

/-- The end of the loop over the active channels, and the swap of `doPendingFunctors`. -/
def doPendingFunctors (w : ClientLoop) : ClientLoop :=
  { w with
    loop :=
      { w.loop with currentActiveChannel := none, eventHandling := false, queue := w.loop.queue.swapFunctors } }

def runFunctor (f : Functor) (r : Results) : Code ClientLoop UserCallback Unit :=
  match f with
  | .resetChannel k n => Code.modify (onConnector k (ConnectorSite.resetChannel n))
  | .sendInLoop i _ | .shutdownInLoop i | .forceCloseInLoop i | .startReadInLoop i | .stopReadInLoop i
  | .writeComplete i | .highWaterMark i _ => onConn i r.attempt (Site.runFunctor f r.write)

/-- What user code in the loop thread may call. -/
inductive Op where
  | send (i : Nat) (message : Bytes) (result : WriteResult)
  | shutdown (i : Nat)
  | forceClose (i : Nat) (a : Attempt)
  | connect (k : Nat) (a : Attempt)

inductive Top where
  | poll (ready : List (Nat × Mask))
  | dispatch (r : Results)
  | retryTimer (k : Nat) (a : Attempt)
  | doPendingFunctors
  | runFunctor (r : Results)

def api : Op → Code ClientLoop UserCallback Unit
  | .send i message result => onConn i ⟨0, 0⟩ (Code.modify (Site.send message result))
  | .shutdown i => onConn i ⟨0, 0⟩ (Code.modify Site.shutdown)
  | .forceClose i a => onConn i a Site.forceClose
  | .connect k a => Code.modify (connect k a)

def top : Top → Code ClientLoop UserCallback Unit
  | .poll ready => Code.modify (poll ready)
  | .dispatch r => dispatch r
  | .retryTimer k a => Code.modify (onConnector k (ConnectorSite.retryTimer a))
  | .doPendingFunctors => Code.modify doPendingFunctors
  | .runFunctor r => do
    let w ← Code.get
    match w.loop.queue.functors with
    | [] => pure ()
    | f :: rest => do
      Code.modify fun w => { w with loop := { w.loop with queue := { w.loop.queue with functors := rest } } }
      runFunctor f r

/-- The order of an iteration of the loop. `epoll_wait` reports a channel at most once; a retry timer runs in the
    dispatch of the timer channel. -/
def enabled : Top → ClientLoop → Bool
  | .poll ready, w =>
    !w.loop.eventHandling && w.loop.queue.functors.isEmpty && ((w.polled ready).map (·.1)).Nodup &&
      (w.polled ready).all fun (c, _) => w.isMade c
  | .dispatch _, w => w.loop.eventHandling && !w.waiting.isEmpty
  | .retryTimer k _, w => w.loop.eventHandling && !(w.clients k).connector.retryTimers.isEmpty
  | .doPendingFunctors, w => w.loop.eventHandling && w.waiting.isEmpty
  | .runFunctor _, w => !w.loop.eventHandling

/-- The clients of a loop, their users, and the iterations of the loop. -/
def system : Reentrant ClientLoop UserCallback Op Top := ⟨api, top, enabled⟩

end ClientLoop
end Muduo
