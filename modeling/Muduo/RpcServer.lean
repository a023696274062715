import Muduo.TcpServer

/-! # RPC server

`RpcServer` over its `TcpServer`, with the strong references to each connection and to the channel that `onConnection`
makes for it. An object is destroyed with the last strong reference to it; the socket is closed with the connection. The
server stays alive. The closures of the services hold a plain pointer to the channel, and the responses are sent through
weak references: they keep nothing alive. -/

namespace Muduo

/-- What `messageCallback_` of a connection holds: the callback of the server, or the channel. -/
inductive MessageHolder where
  | server
  | channel
  deriving DecidableEq

/-- A strong reference to a channel, from the connection. -/
inductive ChannelRef where
  | messageCallback
  | context
  deriving DecidableEq

/-- A strong reference to a connection. -/
inductive ConnRef (k : Nat) where
  /-- In `connections_`. -/
  | entry (name : String)
  | functor (l : LoopId k) (f : ServerFunctor)
  /-- In a call that the loop is in. -/
  | established (l : LoopId k)
  | message (l : LoopId k)
  /-- `conn_` of its channel. -/
  | channel
  deriving DecidableEq

structure RpcConn where
  /-- The connection is not destroyed, and its socket is open. -/
  isOpen : Bool := true
  messageCallback : MessageHolder := .server
  /-- `context_` holds the channel. -/
  context : Bool := false
  /-- The channel of the connection is made and not destroyed. -/
  channel : Bool := false
  deriving DecidableEq

structure RpcServer (k : Nat) where
  server : TcpServer k
  /-- The connections in the order in which they were accepted. -/
  conns : List RpcConn := []
  /-- The connection whose message callback the loop is in. -/
  inMessage : LoopId k → Option Nat := fun _ => none
  /-- The closures that the services have not run yet, with the connection of each. -/
  dones : List Nat := []

namespace RpcConn

/-- The strong references to the channel. -/
def channelRefs (w : RpcConn) : List ChannelRef :=
  if w.isOpen then
    (if w.messageCallback = .channel then [.messageCallback] else []) ++ if w.context then [.context] else []
  else []

/-- Destroys what has lost its last strong reference. The channel goes first, since it holds the connection. -/
def settle {k : Nat} (held : List (ConnRef k)) (w : RpcConn) : RpcConn :=
  let w := if w.channelRefs = [] then { w with channel := false } else w
  if held = [] ∧ w.channel = false then { w with isOpen := false } else w

end RpcConn

namespace RpcServer
variable {k : Nat}

def loops (k : Nat) : List (LoopId k) := none :: (List.finRange k).map some

/-- The strong references to a connection from the map, the functors and the calls in flight. -/
def held (c : Nat) (s : RpcServer k) : List (ConnRef k) :=
  (s.server.connections.filter (·.2 = c)).map (fun e => .entry e.1) ++
  (loops k).flatMap fun l =>
    ((s.server.queues l).filter (·.conn = c)).map (.functor l) ++
    (if s.server.inEstablished l = some c then [.established l] else []) ++
    if s.inMessage l = some c then [.message l] else []

/-- All strong references to a connection. -/
def strongRefs (c : Nat) (s : RpcServer k) : List (ConnRef k) :=
  s.held c ++ if (s.conns[c]?).any (·.channel) then [.channel] else []

def settle (s : RpcServer k) : RpcServer k := { s with conns := s.conns.mapIdx fun c w => w.settle (s.held c) }

def modifyConn (c : Nat) (f : RpcConn → RpcConn) (s : RpcServer k) : RpcServer k :=
  { s with conns := s.conns.modify c f }

def connected (c : Nat) (s : RpcServer k) : Bool := (s.server.accepted[c]?).any (·.state = .kConnected)

def onConnection (c : Nat) (s : RpcServer k) : RpcServer k :=
  if s.connected c then s.modifyConn c fun w => { w with channel := true, messageCallback := .channel, context := true }
  else s.modifyConn c fun w => { w with context := false }

/-- `newConnection`, after which the server is `t`. -/
def newConnection (t : TcpServer k) (s : RpcServer k) : RpcServer k :=
  let s' : RpcServer k := { s with server := t, conns := s.conns ++ [{}] }
  match (TcpServer.getNextLoop (k := k) s.server.next).1 with
  | none => s'.onConnection s.server.accepted.length
  | some _ => s'

/-- A functor, after which the server is `t`: the connection callback is called where the connection goes up or down. -/
def functor (f : ServerFunctor) (t : TcpServer k) (s : RpcServer k) : RpcServer k :=
  match f with
  | .connectEstablished c => { s with server := t }.onConnection c
  | .removeConnectionInLoop _ => { s with server := t }
  | .connectDestroyed c => if s.connected c then { s with server := t }.onConnection c else { s with server := t }

/-- The message callback of a connection gets some complete requests: a service has a closure for each. -/
def onMessage (c : Nat) (requests : Nat) (l : LoopId k) (w : RpcConn) (s : RpcServer k) : RpcServer k :=
  { s with
    inMessage := Function.update s.inMessage l (some c)
    dones := match w.messageCallback with
      | .server => s.dones
      | .channel => s.dones ++ List.replicate requests c }

inductive Event (k : Nat) where
  | newConnection
  | functor (l : LoopId k)
  /-- `connectEstablished` returns. -/
  | established (l : LoopId k)
  /-- The message callback of a connection is called, and returns. -/
  | message (c : Nat) (requests : Nat)
  | handled (l : LoopId k)
  /-- A service runs a closure. -/
  | done (i : Nat)
  | handleClose (c : Nat)

def step (s : RpcServer k) : Event k → Option (RpcServer k)
  | .newConnection =>
    if s.inMessage none = none then (s.server.step .newConnection).map fun t => (s.newConnection t).settle else none
  | .functor l =>
    if s.inMessage l = none then
      match s.server.queues l with
      | [] => none
      | f :: _ => (s.server.step (.functor l)).map fun t => (s.functor f t).settle
    else none
  | .established l => (s.server.step (.established l)).map fun t => { s with server := t }.settle
  | .message c requests =>
    match s.server.accepted[c]?, s.conns[c]? with
    | some v, some w =>
      -- The loop is in no other call.
      if v.state = .kConnected ∧ w.isOpen ∧ s.server.inEstablished v.loop = none ∧ s.inMessage v.loop = none then
        some (s.onMessage c requests v.loop w)
      else none
    | _, _ => none
  | .handled l =>
    if (s.inMessage l).isSome then some { s with inMessage := Function.update s.inMessage l none }.settle else none
  | .done i => if i < s.dones.length then some { s with dones := s.dones.eraseIdx i } else none
  | .handleClose c =>
    match s.server.accepted[c]? with
    | none => none
    | some v =>
      if s.server.inEstablished v.loop = none ∧ s.inMessage v.loop = none then
        (s.server.step (.handleClose c)).map fun t => ({ s with server := t }.onConnection c).settle
      else none

def system (k : Nat) : Lib.Stepper (RpcServer k) (Event k) := ⟨step⟩

/-- The connection is removed from the map, `connectDestroyed` has run for it, and no functor and no call refers to it. -/
def tornDown (c : Nat) (s : RpcServer k) : Bool :=
  (s.server.accepted[c]?).any (fun v => !v.destroyCalls.isEmpty) && (s.held c).isEmpty

/-- The number of open sockets. -/
def openSockets (s : RpcServer k) : Nat := s.conns.countP (·.isOpen)

/-- The number of connections that are not yet torn down. -/
def notTornDown (s : RpcServer k) : Nat := (List.range s.server.accepted.length).countP fun c => !s.tornDown c

end RpcServer
end Muduo
