import Muduo.Channel

/-! # Connections

The functions of `TcpConnection` on a connection and its loop. The results of the system calls are inputs.
A function that runs no callback is a function on the state; one that does is `Code`, which stops at each
callback for user code to run. The log of a connection is for the statements about it: the source keeps
none. -/

namespace Muduo
open Lib

/-- The result of `sockets::write`: how many of the offered bytes the kernel accepted, or the errno. -/
inductive WriteResult where
  | wrote (n : Nat)
  | error (errno : Nat)
  deriving DecidableEq

/-- The result of `readv`: the bytes, none at the end of the stream, or the errno. -/
inductive ReadResult where
  | read (data : Bytes)
  | error (errno : Nat)
  deriving DecidableEq

def EWOULDBLOCK : Nat := 11
def EPIPE : Nat := 32
def ECONNRESET : Nat := 104

inductive StateE where
  | kConnecting
  | kConnected
  | kDisconnecting
  | kDisconnected
  deriving DecidableEq

inductive ConnAssert where
  | establishedConnecting
  | closeState
  deriving DecidableEq

inductive ConnEvent where
  | setState (state : StateE)
  | connectionCallback (state : StateE)
  | messageCallback
  | closeCallback
  /-- `sendInLoop` takes a message, with the result of its direct write if it tries one. -/
  | sendInLoop (message : Bytes) (direct : Option WriteResult)
  | handleWrite (offered : Bytes) (result : WriteResult)
  | shutdownWrite
  deriving DecidableEq

structure TcpConnection where
  id : Nat
  state : StateE := .kConnecting
  reading : Bool := false
  channel : Channel
  inputBuffer : Buffer := .new Buffer.kInitialSize
  outputBuffer : Buffer := .new Buffer.kInitialSize
  highWaterMark : Nat := 64 * 1024 * 1024
  connectionCallback : Bool := true
  messageCallback : Bool := true
  writeCompleteCallback : Bool := false
  highWaterMarkCallback : Bool := false
  closeCallback : Bool := false
  destroying : Bool := false
  /-- `connectDestroyed` has removed the channel. -/
  destroyed : Bool := false
  /-- What happened so far, newest first. -/
  log : List ConnEvent := []
  failed : List ConnAssert := []

inductive ConnCallback where
  | connection
  | message
  | close
  | writeComplete
  | highWaterMark (len : Nat)
  deriving DecidableEq

/-- What a thread other than the loop thread still has to do in a call it has begun. -/
inductive Elsewhere where
  /-- Set the state to `kDisconnecting`, then queue the functor. -/
  | setState (f : Functor)
  | queueInLoop (f : Functor)
  deriving DecidableEq

/-- A connection and its loop, and the calls of other threads. -/
structure Site where
  conn : TcpConnection
  loop : EventLoop := {}
  elsewhere : List Elsewhere := []

namespace Site

def new (id fd : Nat) : Site := { conn := { id := id, channel := { id := .connection id, fd := fd } } }

def record (e : ConnEvent) (s : Site) : Site := { s with conn := { s.conn with log := e :: s.conn.log } }

def setState (state : StateE) (s : Site) : Site :=
  record (.setState state) { s with conn := { s.conn with state := state } }

def queueInLoop (f : Functor) (s : Site) : Site := { s with loop := s.loop.queueInLoop f }

def onChannel (f : Channel → EventLoop → EventLoop × Channel) (s : Site) : Site :=
  let (l, c) := f s.conn.channel s.loop
  { s with conn := { s.conn with channel := c }, loop := l }

def assertState (a : ConnAssert) (holds : Bool) (s : Site) : Site :=
  if holds then s else { s with conn := { s.conn with failed := a :: s.conn.failed } }

/-! ## Output -/

def queueWriteComplete (s : Site) : Site :=
  if s.conn.writeCompleteCallback then s.queueInLoop (.writeComplete s.conn.id) else s

def queueHighWaterMark (oldLen remaining : Nat) (s : Site) : Site :=
  if s.conn.highWaterMark ≤ oldLen + remaining ∧ oldLen < s.conn.highWaterMark ∧ s.conn.highWaterMarkCallback then
    s.queueInLoop (.highWaterMark s.conn.id (oldLen + remaining))
  else s

/-- Nothing is waiting to be written, so a message may be written at once. -/
def writesDirectly (s : Site) : Bool := !s.conn.channel.isWriting && s.conn.outputBuffer.readableBytes == 0

def appendOutput (data : Bytes) (s : Site) : Site :=
  { s with conn := { s.conn with outputBuffer := s.conn.outputBuffer.append data } }

/-- The end of `sendInLoop`: what was not written is appended to the output buffer. -/
def sendLater (rest : Bytes) (s : Site) : Site :=
  let s := s.queueHighWaterMark s.conn.outputBuffer.readableBytes rest.length
  let s := s.appendOutput rest
  if s.conn.channel.isWriting then s else s.onChannel Channel.enableWriting

/-- `sendInLoop` after its direct write, if it tried one. -/
def sendRest (message : Bytes) (direct : Option WriteResult) (s : Site) : Site :=
  match direct with
  | some (.wrote n) =>
    let rest := message.drop n
    if rest.isEmpty then s.queueWriteComplete else s.sendLater rest
  | some (.error errno) =>
    let faultError := errno ≠ EWOULDBLOCK ∧ (errno = EPIPE ∨ errno = ECONNRESET)
    if faultError ∨ message.isEmpty then s else s.sendLater message
  | none => if message.isEmpty then s else s.sendLater message

/-- `sendInLoop`; `result` is what its direct write would return. -/
def sendInLoop (message : Bytes) (result : WriteResult) (s : Site) : Site :=
  if s.conn.state = .kDisconnected then s
  else
    let direct := if s.writesDirectly then some result else none
    (s.record (.sendInLoop message direct)).sendRest message direct

/-- `send` in the loop thread. -/
def send (message : Bytes) (result : WriteResult) (s : Site) : Site :=
  if s.conn.state = .kConnected then s.sendInLoop message result else s

def shutdownInLoop (s : Site) : Site := if s.conn.channel.isWriting then s else s.record .shutdownWrite

/-- The output buffer is empty. -/
def drained (s : Site) : Site :=
  let s := (s.onChannel Channel.disableWriting).queueWriteComplete
  if s.conn.state = .kDisconnecting then s.shutdownInLoop else s

def retrieveOutput (len : Nat) (s : Site) : Site :=
  { s with conn := { s.conn with outputBuffer := s.conn.outputBuffer.retrieve len } }

/-- `handleWrite` after its write. -/
def handleWritten (result : WriteResult) (s : Site) : Site :=
  match result with
  | .wrote 0 => s
  | .wrote (n + 1) =>
    let s := s.retrieveOutput (n + 1)
    if s.conn.outputBuffer.readableBytes = 0 then s.drained else s
  | .error _ => s

/-- `handleWrite`; `result` is what its write returns. -/
def handleWrite (result : WriteResult) (s : Site) : Site :=
  if s.conn.channel.isWriting then
    (s.record (.handleWrite s.conn.outputBuffer.readableSpan result)).handleWritten result
  else s

/-- `shutdown` in the loop thread. -/
def shutdown (s : Site) : Site :=
  if s.conn.state = .kConnected then (s.setState .kDisconnecting).shutdownInLoop else s

/-! ## Reading -/

def startReadInLoop (s : Site) : Site :=
  if ¬s.conn.reading ∨ ¬s.conn.channel.isReading then
    let s := s.onChannel Channel.enableReading
    { s with conn := { s.conn with reading := true } }
  else s

def stopReadInLoop (s : Site) : Site :=
  if s.conn.reading ∨ s.conn.channel.isReading then
    let s := s.onChannel Channel.disableReading
    { s with conn := { s.conn with reading := false } }
  else s

def readFd (data : Bytes) (s : Site) : Site :=
  { s with conn := { s.conn with inputBuffer := s.conn.inputBuffer.readFd data } }

/-! ## The life of a connection -/

/-- A connection is established, up to the connection callback. -/
def establish (s : Site) : Site :=
  let s := s.assertState .establishedConnecting (s.conn.state = .kConnecting)
  let s := (s.setState .kConnected).onChannel Channel.enableReading
  { s with conn := { s.conn with reading := true } }

/-- A connection is down, up to the connection callback. -/
def disconnect (s : Site) : Site := (s.setState .kDisconnected).onChannel Channel.disableAll

def removeChannel (s : Site) : Site :=
  let s := s.onChannel Channel.remove
  { s with conn := { s.conn with destroyed := true } }

section Callbacks
variable {C : Type}

/-- A callback, if it is set, recorded under `e`. -/
def callbackIf (isSet : TcpConnection → Bool) (e : TcpConnection → ConnEvent) (c : C) : Code Site C Unit := do
  let s ← Code.get
  Code.when (isSet s.conn) do
    Code.modify (record (e s.conn))
    Code.callback c

/-- The connection callback; `c` is how the surrounding code calls it. -/
def runConnectionCallback (c : C) : Code Site C Unit :=
  callbackIf (·.connectionCallback) (fun conn => .connectionCallback conn.state) c

def connectEstablished (c : C) : Code Site C Unit := do
  Code.modify establish
  runConnectionCallback c

def connectDestroyed (c : C) : Code Site C Unit := do
  Code.modify fun s => { s with conn := { s.conn with destroying := true } }
  let s ← Code.get
  Code.when (s.conn.state = .kConnected ∨ s.conn.state = .kDisconnecting) do
    Code.modify disconnect
    runConnectionCallback c
  Code.modify removeChannel

def handleClose : Code Site ConnCallback Unit := do
  Code.modify fun s =>
    s.assertState .closeState (s.conn.state = .kConnected ∨ s.conn.state = .kDisconnecting)
  Code.modify disconnect
  runConnectionCallback .connection
  callbackIf (·.closeCallback) (fun _ => .closeCallback) .close

def forceCloseInLoop : Code Site ConnCallback Unit := do
  let s ← Code.get
  Code.when (s.conn.state = .kConnected ∨ s.conn.state = .kDisconnecting) handleClose

/-- `forceClose` in the loop thread. -/
def forceClose : Code Site ConnCallback Unit := do
  let s ← Code.get
  Code.when (s.conn.state = .kConnected ∨ s.conn.state = .kDisconnecting) do
    Code.modify (setState .kDisconnecting)
    forceCloseInLoop

def handleRead : ReadResult → Code Site ConnCallback Unit
  | .read data => do
    let s ← Code.get
    if (data.take s.conn.inputBuffer.readCapacity).isEmpty then handleClose
    else do
      Code.modify (readFd (data.take s.conn.inputBuffer.readCapacity))
      callbackIf (·.messageCallback) (fun _ => .messageCallback) .message
  -- `handleError` only logs.
  | .error _ => pure ()

def setEventHandling (b : Bool) (s : Site) : Site :=
  { s with conn := { s.conn with channel := { s.conn.channel with eventHandling := b } } }

def handleEvent (revents : Mask) (readResult : ReadResult) (writeResult : WriteResult) :
    Code Site ConnCallback Unit :=
  Channel.handleEventWithGuard setEventHandling revents handleClose (pure ()) (handleRead readResult)
    (Code.modify (handleWrite writeResult))

end Callbacks

/-! ## Runs -/

/-- `EventLoop::doPendingFunctors`, one functor. -/
def runFunctor (f : Functor) (result : WriteResult) : Code Site ConnCallback Unit :=
  match f with
  | .sendInLoop _ message => Code.modify (sendInLoop message result)
  | .shutdownInLoop _ => Code.modify shutdownInLoop
  | .forceCloseInLoop _ => forceCloseInLoop
  | .startReadInLoop _ => Code.modify startReadInLoop
  | .stopReadInLoop _ => Code.modify stopReadInLoop
  | .writeComplete _ => do
    let s ← Code.get
    Code.when s.conn.writeCompleteCallback (Code.callback .writeComplete)
  | .highWaterMark _ len => do
    let s ← Code.get
    Code.when s.conn.highWaterMarkCallback (Code.callback (.highWaterMark len))
  | .resetChannel _ _ => pure ()

/-- A call in another thread, up to its test of the state. -/
inductive Call where
  | send (message : Bytes)
  | shutdown
  | forceClose
  | startRead
  | stopRead

/-- What a call does after its test, if it goes on. -/
def Call.rest (id : Nat) : Call → StateE → Option Elsewhere
  | .send message, state => if state = .kConnected then some (.queueInLoop (.sendInLoop id message)) else none
  | .shutdown, state => if state = .kConnected then some (.setState (.shutdownInLoop id)) else none
  | .forceClose, state =>
    if state = .kConnected ∨ state = .kDisconnecting then some (.setState (.forceCloseInLoop id)) else none
  | .startRead, _ => some (.queueInLoop (.startReadInLoop id))
  | .stopRead, _ => some (.queueInLoop (.stopReadInLoop id))

def callElsewhere (call : Call) (s : Site) : Site :=
  { s with elsewhere := (call.rest s.conn.id s.conn.state).toList ++ s.elsewhere }

/-- A call in another thread goes on. -/
def stepElsewhere (e : Elsewhere) (s : Site) : Site :=
  if e ∈ s.elsewhere then
    let s := { s with elsewhere := s.elsewhere.erase e }
    match e with
    | .setState f =>
      let s := s.setState .kDisconnecting
      { s with elsewhere := .queueInLoop f :: s.elsewhere }
    | .queueInLoop f => { s with loop := { s.loop with queue := s.loop.queue.queueInLoop false f } }
  else s

/-- What may happen at any time, also while callbacks run: calls in the loop thread and in other threads. -/
inductive Op where
  | send (message : Bytes) (result : WriteResult)
  | shutdown
  | forceClose
  | startRead
  | stopRead
  | connectDestroyed
  | callElsewhere (call : Call)
  | stepElsewhere (e : Elsewhere)

inductive Top where
  | connectEstablished
  | handleEvent (revents : Mask) (readResult : ReadResult) (writeResult : WriteResult)
  | doPendingFunctors
  | runFunctor (result : WriteResult)

def api : Op → Code Site ConnCallback Unit
  | .send message result => Code.modify (send message result)
  | .shutdown => Code.modify shutdown
  | .forceClose => forceClose
  | .startRead => Code.modify startReadInLoop
  | .stopRead => Code.modify stopReadInLoop
  | .connectDestroyed => connectDestroyed .connection
  | .callElsewhere call => Code.modify (callElsewhere call)
  | .stepElsewhere e => Code.modify (stepElsewhere e)

def top : Top → Code Site ConnCallback Unit
  | .connectEstablished => connectEstablished .connection
  | .handleEvent revents readResult writeResult => handleEvent revents readResult writeResult
  | .doPendingFunctors => Code.modify fun s => { s with loop := { s.loop with queue := s.loop.queue.swapFunctors } }
  | .runFunctor result => do
    let s ← Code.get
    match s.loop.queue.functors with
    | [] => pure ()
    | f :: rest => do
      Code.modify fun s => { s with loop := { s.loop with queue := { s.loop.queue with functors := rest } } }
      runFunctor f result

/-- The loop dispatches and swaps only between batches of functors. -/
def enabled : Top → Site → Bool
  | .connectEstablished, s => s.conn.state = .kConnecting
  | .handleEvent _ _ _, s => s.loop.queue.functors.isEmpty && s.conn.state ≠ .kConnecting
  | .doPendingFunctors, s => s.loop.queue.functors.isEmpty
  | .runFunctor _, _ => true

/-- A connection, its users in any thread, and its loop. -/
def system : Reentrant Site ConnCallback Op Top := ⟨api, top, enabled⟩

end Site
end Muduo
