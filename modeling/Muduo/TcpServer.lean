import Mathlib.Algebra.Group.Int.Defs
import Mathlib.Logic.Function.Basic
import Muduo.TcpConnection

/-! # TCP server

`TcpServer` with its base loop and any number of I/O loops. A step is a call in one of the loop threads: `newConnection`,
a functor, the return of `connectEstablished`, a close, or a part of the destructor. Functors are queued first in, first
out; `runInLoop` runs them at once in the thread of the loop. Of a connection only what the server and its functors use
is kept: `kConnected` also stands for `kDisconnecting`. The I/O loops may outlive the server, since `threadPool` shares
them. -/

namespace Muduo

/-- The base loop, or an I/O loop. -/
abbrev LoopId (k : Nat) : Type := Option (Fin k)

/-- A functor that holds a connection. `removeConnectionInLoop` also captures the server. -/
inductive ServerFunctor where
  | connectEstablished (conn : Nat)
  | removeConnectionInLoop (conn : Nat)
  | connectDestroyed (conn : Nat)
  deriving DecidableEq

def ServerFunctor.conn : ServerFunctor → Nat
  | .connectEstablished c | .removeConnectionInLoop c | .connectDestroyed c => c

/-- A call of `connectDestroyed`: in which loop, and whether `connectEstablished` had returned and the entry of the
connection was erased by then. -/
structure DestroyCall (k : Nat) where
  loop : LoopId k
  established : Bool
  erased : Bool
  deriving DecidableEq

structure ServerConn (k : Nat) where
  name : String
  loop : LoopId k
  state : StateE := .kConnecting
  /-- `connectEstablished` has returned. -/
  established : Bool := false
  /-- How many entries each `erase` of `removeConnectionInLoop` has erased. -/
  erasures : List Nat := []
  destroyCalls : List (DestroyCall k) := []
  deriving DecidableEq

inductive ServerAt where
  | alive
  | destroying
  | destroyed
  deriving DecidableEq

structure TcpServer (k : Nat) where
  name : String
  ipPort : String
  /-- `next_` of the thread pool. -/
  next : Nat := 0
  nextConnId : Int := 1
  connections : List (String × Nat) := []
  /-- All connections in the order in which they were accepted. -/
  accepted : List (ServerConn k) := []
  queues : LoopId k → List ServerFunctor := fun _ => []
  /-- The connection whose `connectEstablished` the loop is in. -/
  inEstablished : LoopId k → Option Nat := fun _ => none
  serverAt : ServerAt := .alive
  /-- The connections for which the server was called after it was destroyed. -/
  dangling : List Nat := []

/-- `++` of an `int`. -/
def incrementInt (i : Int) : Int := if i = 2 ^ 31 - 1 then -2 ^ 31 else i + 1

def connName (name ipPort : String) (id : Int) : String := name ++ "-" ++ ipPort ++ "#" ++ id.repr

namespace TcpServer
variable {k : Nat}

def getNextLoop (next : Nat) : LoopId k × Nat :=
  if h : next < k then (some ⟨next, h⟩, if next + 1 ≥ k then 0 else next + 1) else (none, next)

def queueInLoop (l : LoopId k) (f : ServerFunctor) (s : TcpServer k) : TcpServer k :=
  { s with queues := Function.update s.queues l (s.queues l ++ [f]) }

def modifyConn (c : Nat) (f : ServerConn k → ServerConn k) (s : TcpServer k) : TcpServer k :=
  { s with accepted := s.accepted.modify c f }

/-- `connectEstablished` up to its connection callback. -/
def connectEstablished (c : Nat) (l : LoopId k) (s : TcpServer k) : TcpServer k :=
  { s.modifyConn c fun v => { v with state := .kConnected } with
    inEstablished := Function.update s.inEstablished l (some c) }

def connectDestroyed (c : Nat) (l : LoopId k) (s : TcpServer k) : TcpServer k :=
  s.modifyConn c fun v =>
    { v with state := .kDisconnected, destroyCalls := ⟨l, v.established, !v.erasures.isEmpty⟩ :: v.destroyCalls }

/-- A member function of the server is called. -/
def called (c : Nat) (s : TcpServer k) : TcpServer k :=
  if s.serverAt = .destroyed then { s with dangling := c :: s.dangling } else s

def removeConnectionInLoop (c : Nat) (v : ServerConn k) (s : TcpServer k) : TcpServer k :=
  let erased := (s.connections.filter (·.1 = v.name)).length
  let s : TcpServer k := { s.called c with connections := s.connections.filter (·.1 ≠ v.name) }
  (s.modifyConn c fun v => { v with erasures := erased :: v.erasures }).queueInLoop v.loop (.connectDestroyed c)

/-- The close callback, in the loop of the connection. -/
def removeConnection (c : Nat) (v : ServerConn k) (s : TcpServer k) : TcpServer k :=
  match v.loop with
  | none => (s.called c).removeConnectionInLoop c v
  | some _ => (s.called c).queueInLoop none (.removeConnectionInLoop c)

/-- `newConnection` up to `runInLoop`. -/
def addConnection (s : TcpServer k) : TcpServer k :=
  { s with
    next := (getNextLoop (k := k) s.next).2
    nextConnId := incrementInt s.nextConnId
    accepted := s.accepted ++ [{ name := connName s.name s.ipPort s.nextConnId, loop := (getNextLoop s.next).1 }]
    connections := s.connections.filter (·.1 ≠ connName s.name s.ipPort s.nextConnId) ++
      [(connName s.name s.ipPort s.nextConnId, s.accepted.length)] }

def newConnection (s : TcpServer k) : TcpServer k :=
  match (getNextLoop s.next).1 with
  | none => s.addConnection.connectEstablished s.accepted.length none
  | some i => s.addConnection.queueInLoop (some i) (.connectEstablished s.accepted.length)

/-- `handleClose` of a connection. -/
def handleClose (c : Nat) (v : ServerConn k) (s : TcpServer k) : TcpServer k :=
  (s.modifyConn c fun v => { v with state := .kDisconnected }).removeConnection c v

/-- The destructor runs `connectDestroyed` in the loop of a connection. -/
def destroyConnection (c : Nat) (v : ServerConn k) (s : TcpServer k) : TcpServer k :=
  match v.loop with
  | none => s.connectDestroyed c none
  | some _ => s.queueInLoop v.loop (.connectDestroyed c)

/-- A functor is run in a loop. -/
def functor (l : LoopId k) (f : ServerFunctor) (s : TcpServer k) : TcpServer k :=
  match f with
  | .connectEstablished c => s.connectEstablished c l
  | .removeConnectionInLoop c =>
    match s.accepted[c]? with
    | none => s
    | some v => s.removeConnectionInLoop c v
  | .connectDestroyed c => s.connectDestroyed c l

/-- A step of `~TcpServer`, in the base loop. -/
def destructor (s : TcpServer k) : Option (TcpServer k) :=
  match s.serverAt, s.connections with
  | .alive, _ => some { s with serverAt := .destroying }
  | .destroying, [] => some { s with serverAt := .destroyed }
  | .destroying, (_, c) :: rest =>
    match s.accepted[c]? with
    | none => none
    | some v => some ({ s with connections := rest }.destroyConnection c v)
  | .destroyed, _ => none

inductive Event (k : Nat) where
  | newConnection
  | functor (l : LoopId k)
  /-- `connectEstablished` returns. -/
  | established (l : LoopId k)
  | handleClose (c : Nat)
  | destructor

def step (s : TcpServer k) : Event k → Option (TcpServer k)
  | .newConnection => if s.serverAt = .alive ∧ s.inEstablished none = none then some s.newConnection else none
  | .functor l =>
    -- The loop is in no other call.
    if s.inEstablished l = none ∧ (l = none → s.serverAt ≠ .destroying) then
      match s.queues l with
      | [] => none
      | f :: rest => some ({ s with queues := Function.update s.queues l rest }.functor l f)
    else none
  | .established l =>
    match s.inEstablished l with
    | none => none
    | some c =>
      some { s.modifyConn c fun v => { v with established := true } with
        inEstablished := Function.update s.inEstablished l none }
  | .handleClose c =>
    match s.accepted[c]? with
    | none => none
    | some v =>
      if v.state = .kConnected ∧ (v.loop = none → s.serverAt ≠ .destroying) then some (s.handleClose c v) else none
  | .destructor => s.destructor

def system (k : Nat) : Lib.Stepper (TcpServer k) (Event k) := ⟨step⟩

/-! ## What a step can do -/

section
variable {s t : TcpServer k} {c : Nat} {l : LoopId k}

theorem of_newConnection (h : s.step .newConnection = some t) :
    s.serverAt = .alive ∧ s.inEstablished none = none ∧ t = s.newConnection := by
  simp only [step, Option.ite_none_right_eq_some, Option.some.injEq] at h
  obtain ⟨⟨halive, hidle⟩, rfl⟩ := h
  exact ⟨halive, hidle, rfl⟩

theorem of_functor (h : s.step (.functor l) = some t) :
    ∃ f rest, s.queues l = f :: rest ∧ s.inEstablished l = none ∧
      t = functor l f { s with queues := Function.update s.queues l rest } := by
  simp only [step, Option.ite_none_right_eq_some] at h
  obtain ⟨⟨hidle, -⟩, h⟩ := h
  split at h
  · cases h
  · rename_i f rest hqueue
    exact ⟨f, rest, hqueue, hidle, (Option.some.inj h).symm⟩

theorem of_established (h : s.step (.established l) = some t) :
    ∃ c, s.inEstablished l = some c ∧ t = { s.modifyConn c fun v => { v with established := true } with
      inEstablished := Function.update s.inEstablished l none } := by
  simp only [step] at h
  split at h
  · cases h
  · rename_i c hin
    exact ⟨c, hin, (Option.some.inj h).symm⟩

theorem of_handleClose (h : s.step (.handleClose c) = some t) :
    ∃ v, s.accepted[c]? = some v ∧ v.state = .kConnected ∧ (v.loop = none → s.serverAt ≠ .destroying) ∧
      t = s.handleClose c v := by
  simp only [step] at h
  split at h
  · cases h
  · rename_i v hc
    rw [Option.ite_none_right_eq_some] at h
    obtain ⟨⟨hstate, hat⟩, h⟩ := h
    exact ⟨v, hc, hstate, hat, (Option.some.inj h).symm⟩

end

end TcpServer
end Muduo
