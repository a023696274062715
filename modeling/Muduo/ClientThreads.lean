import Muduo.Connector
import Muduo.TcpConnection

/-! # A client that is destroyed in another thread

A `TcpClient` between two threads: that of its loop, and that of its owner, where `~TcpClient` runs. A step is an access
to what the threads share: `connect_` of the connector, `connection_` under its mutex, `state_` of a connection, the
functors of the loop. Of the connector and the connections only what decides about the callbacks of the client is kept.
A call that the loop is in goes on as if the members of the client were still there. -/

namespace Muduo

/-- What `connect` makes of a new socket. -/
inductive ConnectResult where
  | connecting
  | retry
  | close
  deriving DecidableEq

structure ClientConnector where
  connect : Bool := false
  state : States := .kDisconnected
  /-- The number of retry timers that wait. -/
  retryTimers : Nat := 0

/-- What `closeCallback_` calls: `removeConnection` of the client, or that of `detail`. -/
inductive CloseTarget where
  | client
  | detail
  deriving DecidableEq

structure ClientConn where
  state : StateE := .kConnecting
  /-- The events of its channel are enabled. -/
  reading : Bool := false
  closeCallback : CloseTarget := .client
  /-- How often `connectDestroyed` has run. -/
  destroyed : Nat := 0

inductive ClientFunctor where
  | startInLoop
  | stopInLoop
  | resetChannel
  | setCloseCallback (conn : Nat)
  | forceCloseInLoop (conn : Nat)
  deriving DecidableEq

/-- Where the loop thread is. -/
inductive ClientLoopAt where
  | idle
  /-- `handleWrite` has seen `connect_` and calls back. -/
  | newConnection
  /-- In `newConnection`. -/
  | setConnection (conn : Nat)
  | connectEstablished (conn : Nat)
  /-- In `handleClose`, before `closeCallback_`. -/
  | closeCallback (conn : Nat)
  /-- In `removeConnection` of the client. -/
  | resetConnection (conn : Nat)
  | connectDestroyed (conn : Nat)
  | testRetry
  | restart
  /-- In `restart` of the connector. -/
  | startInLoop
  /-- In `detail::removeConnection`. -/
  | removeConnection (conn : Nat)
  deriving DecidableEq

/-- Where the owner is in `~TcpClient`. -/
inductive DestructorAt where
  | notCalled
  /-- In `stop` of the connector. -/
  | queueStop
  | readConnection
  | queueSetCloseCallback (conn : Nat)
  /-- In `forceClose`. -/
  | testState (conn : Nat)
  | setDisconnecting (conn : Nat)
  | queueForceClose (conn : Nat)
  | runAfter
  | returned
  deriving DecidableEq

inductive ClientCall where
  | newConnection
  | removeConnection (conn : Nat)
  deriving DecidableEq

structure ClientThreads where
  connector : ClientConnector := {}
  retry : Bool := false
  connect : Bool := true
  connection : Option Nat := none
  /-- All connections in the order in which they were made. -/
  conns : List ClientConn := []
  queue : List ClientFunctor := []
  loopAt : ClientLoopAt := .idle
  destructorAt : DestructorAt := .notCalled
  /-- The timer of the destructor holds the connector. -/
  keepsConnector : Bool := false
  /-- The calls of the client by the loop thread after the destructor has returned. -/
  dangling : List ClientCall := []

namespace ClientConnector

def setRetry (s : ClientConnector) : ClientConnector :=
  { s with state := .kDisconnected, retryTimers := if s.connect then s.retryTimers + 1 else s.retryTimers }

/-- A retry timer has fired. -/
def popTimer (s : ClientConnector) : ClientConnector := { s with retryTimers := s.retryTimers - 1 }

/-- `startInLoop`, if its assert holds. -/
def startInLoop (r : ConnectResult) (s : ClientConnector) : Option ClientConnector :=
  if s.state = .kDisconnected then
    if s.connect then
      match r with
      | .connecting => some { s with state := .kConnecting }
      | .retry => some s.setRetry
      | .close => some s
    else some s
  else none

end ClientConnector

/-- The test of `forceClose` and `forceCloseInLoop`. -/
def ClientConn.isUp (v : ClientConn) : Bool := v.state = .kConnected ∨ v.state = .kDisconnecting

namespace ClientThreads

def queueInLoop (f : ClientFunctor) (s : ClientThreads) : ClientThreads := { s with queue := s.queue ++ [f] }

def modifyConn (c : Nat) (f : ClientConn → ClientConn) (s : ClientThreads) : ClientThreads :=
  { s with conns := s.conns.modify c f }

def goTo (l : ClientLoopAt) (s : ClientThreads) : ClientThreads := { s with loopAt := l }

/-- The loop thread calls a member function of the client. -/
def called (call : ClientCall) (s : ClientThreads) : ClientThreads :=
  if s.destructorAt = .returned then { s with dangling := call :: s.dangling } else s

/-- Something holds the connector: the client, a `resetChannel` functor, or the timer of the destructor. -/
def connectorAlive (s : ClientThreads) : Bool :=
  s.destructorAt ≠ .returned || s.queue.contains .resetChannel || s.keepsConnector

/-! ## The connector -/

/-- `startInLoop`, in a functor or a timer with a weak reference. -/
def startInLoop (r : ConnectResult) (s : ClientThreads) : Option ClientThreads :=
  if s.connectorAlive then (s.connector.startInLoop r).map fun c => { s with connector := c } else some s

def stopInLoop (s : ClientThreads) : ClientThreads :=
  if s.connectorAlive ∧ s.connector.state = .kConnecting then
    { s with connector := { s.connector with state := .kDisconnected } }.queueInLoop .resetChannel
  else s

/-- `handleWrite` while connecting; `connected` is false for an error of the socket and for a self-connection. -/
def handleWrite (connected : Bool) (s : ClientThreads) : ClientThreads :=
  let s := s.queueInLoop .resetChannel
  if connected then
    let s := { s with connector := { s.connector with state := .kConnected } }
    if s.connector.connect then s.goTo .newConnection else s
  else { s with connector := s.connector.setRetry }

def handleError (s : ClientThreads) : ClientThreads :=
  { s.queueInLoop .resetChannel with connector := s.connector.setRetry }

/-! ## The connections -/

/-- `handleClose` up to its close callback. -/
def handleClose (c : Nat) (s : ClientThreads) : ClientThreads :=
  (s.modifyConn c fun v => { v with state := .kDisconnected, reading := false }).goTo (.closeCallback c)

def connectDestroyed (c : Nat) (s : ClientThreads) : ClientThreads :=
  s.modifyConn c fun v =>
    { v with
      state := if v.isUp then .kDisconnected else v.state
      reading := if v.isUp then false else v.reading
      destroyed := v.destroyed + 1 }

def functor (f : ClientFunctor) (r : ConnectResult) (s : ClientThreads) : Option ClientThreads :=
  match f with
  | .startInLoop => s.startInLoop r
  | .stopInLoop => some s.stopInLoop
  | .resetChannel => some s
  | .setCloseCallback c => some (s.modifyConn c fun v => { v with closeCallback := .detail })
  | .forceCloseInLoop c => some (if (s.conns[c]?).any (·.isUp) then s.handleClose c else s)

/-- The next step of the call that the loop thread is in. -/
def loop (r : ConnectResult) (s : ClientThreads) : Option ClientThreads :=
  match s.loopAt with
  | .idle => none
  | .newConnection =>
    some ({ s.called .newConnection with conns := s.conns ++ [({} : ClientConn)] }.goTo (.setConnection s.conns.length))
  | .setConnection c => some ({ s with connection := some c }.goTo (.connectEstablished c))
  | .connectEstablished c =>
    some ((s.modifyConn c fun v => { v with state := .kConnected, reading := true }).goTo .idle)
  | .closeCallback c =>
    match s.conns[c]? with
    | none => none
    | some v =>
      match v.closeCallback with
      | .client => some ((s.called (.removeConnection c)).goTo (.resetConnection c))
      | .detail => some (s.goTo (.removeConnection c))
  | .resetConnection c =>
    -- The assert of `removeConnection`.
    if s.connection = some c then some ({ s with connection := none }.goTo (.connectDestroyed c)) else none
  | .connectDestroyed c => some ((s.connectDestroyed c).goTo .testRetry)
  | .testRetry => some (s.goTo (if s.retry ∧ s.connect then .restart else .idle))
  | .restart => some ({ s with connector := { s.connector with state := .kDisconnected, connect := true } }.goTo .startInLoop)
  | .startInLoop => (s.connector.startInLoop r).map fun c => { s with connector := c }.goTo .idle
  | .removeConnection c => some ((s.connectDestroyed c).goTo .idle)

/-! ## The owner -/

/-- Nothing will call `startInLoop`, and its assert would hold. -/
def notStarted (s : ClientThreads) : Bool :=
  s.connector.state = .kDisconnected && s.connector.retryTimers == 0 && !s.queue.contains .startInLoop &&
    s.loopAt ≠ .startInLoop

def callConnect (s : ClientThreads) : ClientThreads :=
  { s with connect := true, connector := { s.connector with connect := true } }.queueInLoop .startInLoop

def disconnect (s : ClientThreads) : ClientThreads :=
  let s := { s with connect := false }
  match s.connection with
  | none => s
  | some c => s.modifyConn c fun v => if v.state = .kConnected then { v with state := .kDisconnecting } else v

def stop (s : ClientThreads) : ClientThreads :=
  { s with connect := false, connector := { s.connector with connect := false } }.queueInLoop .stopInLoop

def destructor (s : ClientThreads) : Option ClientThreads :=
  match s.destructorAt with
  | .notCalled => some { s with connector := { s.connector with connect := false }, destructorAt := .queueStop }
  | .queueStop => some { s.queueInLoop .stopInLoop with destructorAt := .readConnection }
  | .readConnection =>
    match s.connection with
    | none => some { s with destructorAt := .runAfter }
    | some c => some { s with destructorAt := .queueSetCloseCallback c }
  | .queueSetCloseCallback c => some { s.queueInLoop (.setCloseCallback c) with destructorAt := .testState c }
  | .testState c =>
    some { s with destructorAt := if (s.conns[c]?).any (·.isUp) then .setDisconnecting c else .returned }
  | .setDisconnecting c =>
    some { s.modifyConn c fun v => { v with state := .kDisconnecting } with destructorAt := .queueForceClose c }
  | .queueForceClose c => some { s.queueInLoop (.forceCloseInLoop c) with destructorAt := .returned }
  | .runAfter => some { s with keepsConnector := true, destructorAt := .returned }
  | .returned => none

/-! ## The threads -/

inductive Event where
  /-- Calls of the owner. -/
  | connect
  | enableRetry
  | disconnect
  | stop
  | destructor
  /-- The loop is idle and handles an event, a timer or a functor. -/
  | handleWrite (connected : Bool)
  | handleError
  | retryTimer (r : ConnectResult)
  | keepTimer
  /-- EOF or HUP. -/
  | close (conn : Nat)
  | functor (r : ConnectResult)
  /-- The loop goes on with the call that it is in. -/
  | loop (r : ConnectResult)

def step (s : ClientThreads) : Event → Option ClientThreads
  | .connect => if s.destructorAt = .notCalled ∧ s.notStarted then some s.callConnect else none
  | .enableRetry => if s.destructorAt = .notCalled then some { s with retry := true } else none
  | .disconnect => if s.destructorAt = .notCalled then some s.disconnect else none
  | .stop => if s.destructorAt = .notCalled then some s.stop else none
  | .destructor => s.destructor
  | .handleWrite connected =>
    if s.loopAt = .idle ∧ s.connectorAlive ∧ s.connector.state = .kConnecting then some (s.handleWrite connected) else none
  | .handleError =>
    if s.loopAt = .idle ∧ s.connectorAlive ∧ s.connector.state = .kConnecting then some s.handleError else none
  | .retryTimer r =>
    if s.loopAt = .idle ∧ 0 < s.connector.retryTimers then { s with connector := s.connector.popTimer }.startInLoop r
    else none
  | .keepTimer => if s.loopAt = .idle ∧ s.keepsConnector then some { s with keepsConnector := false } else none
  | .close c =>
    if s.loopAt = .idle ∧ (s.conns[c]?).any (fun v => v.reading && v.isUp) then some (s.handleClose c) else none
  | .functor r =>
    if s.loopAt = .idle then
      match s.queue with
      | [] => none
      | f :: rest => functor f r { s with queue := rest }
    else none
  | .loop r => s.loop r

def system : Lib.Stepper ClientThreads Event := ⟨step⟩

end ClientThreads
end Muduo
