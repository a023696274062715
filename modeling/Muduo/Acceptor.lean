import Muduo.Lib.Slots
import Muduo.Lib.Stepper

/-! # The acceptor

`Acceptor::handleRead` in a process whose other threads open and close descriptors at any time, each system call a step.
When no descriptor is left to accept a connection with, the acceptor gives up one that it keeps for this, accepts the
connection, closes it and takes a descriptor again. The log of what becomes of the connections and the record of closes are
for the statements. -/

namespace Muduo
open Lib

/-- What an open descriptor is. -/
inductive Descriptor where
  /-- The file that the acceptor keeps open in reserve. -/
  | idle
  /-- A connection that the acceptor has accepted and neither passed on nor closed. -/
  | accepted (c : Nat)
  /-- A connection that was passed to the callback. -/
  | passed (c : Nat)
  /-- Any other, the listening socket too. -/
  | other
  deriving DecidableEq

def Descriptor.isOwn : Descriptor → Bool
  | .idle | .accepted _ => true
  | .passed _ | .other => false

/-- Where `handleRead` is. -/
inductive AcceptStage where
  | waiting
  /-- A connection is accepted. -/
  | accepted (connfd : Nat)
  /-- `EMFILE`: before the first close, before `accept`, before the second close and before `open`. -/
  | closeIdle
  | acceptIdle
  | closeAccepted
  | openIdle
  | destroyed
  deriving DecidableEq

/-- What becomes of a connection that is accepted. -/
inductive Settled where
  | passed (c fd : Nat)
  | closed (c : Nat)
  deriving DecidableEq

def Settled.connection : Settled → Nat
  | .passed c _ | .closed c => c

/-- An acceptor and its process. Connections are numbered as they arrive. -/
structure Acceptor where
  /-- One slot for each descriptor that the process may have. -/
  descriptors : List (Option Descriptor)
  /-- `idleFd_`; none is −1. -/
  idleFd : Option Nat
  newConnectionCallback : Bool := true
  stage : AcceptStage := .waiting
  /-- The connections that the kernel holds for `accept`. -/
  pending : List Nat := []
  arrived : Nat := 0
  /-- The connections that were reset while the kernel held them. -/
  resets : List Nat := []
  /-- Newest first. -/
  settled : List Settled := []
  /-- The descriptors that the acceptor closed without owning them. -/
  foreignCloses : List Nat := []

/-- How the `accept` of `handleRead` ends. It also counts as failed if the errno is another one after it is logged. -/
inductive AcceptResult where
  | accepted
  | emfile
  | failed
  deriving DecidableEq

inductive AcceptorEvent where
  | connect
  | reset (c : Nat)
  /-- Other code opens a descriptor, or closes one that is not the acceptor's. -/
  | openOther
  | closeOther (fd : Nat)
  | handleRead (result : AcceptResult)
  /-- The next system call or callback in `handleRead`. -/
  | proceed (succeeds : Bool)
  | destroy

namespace Acceptor

/-- `accept` in the kernel. -/
def accept (s : Acceptor) : Option (Nat × Acceptor) :=
  match s.pending, lowestFree s.descriptors with
  | c :: pending, some fd => some (fd, { s with pending, descriptors := s.descriptors.set fd (some (.accepted c)) })
  | _, _ => none

/-- `::close`, called by the acceptor. -/
def close (fd : Option Nat) (s : Acceptor) : Acceptor :=
  match fd with
  | none => s
  | some fd =>
    let closed := { s with descriptors := s.descriptors.set fd none }
    match slot s.descriptors fd with
    | some .idle => closed
    | some (.accepted c) => { closed with settled := .closed c :: s.settled }
    | some (.passed _) | some .other | none => { closed with foreignCloses := fd :: s.foreignCloses }

/-- The callback gets the descriptor, or it is closed if there is no callback. -/
def newConnection (connfd : Nat) (s : Acceptor) : Acceptor :=
  if s.newConnectionCallback then
    match slot s.descriptors connfd with
    | some (.accepted c) =>
      { s with
        descriptors := s.descriptors.set connfd (some (.passed c))
        settled := .passed c connfd :: s.settled }
    | _ => s
  else s.close connfd

def handleRead (s : Acceptor) : AcceptResult → Option Acceptor
  | .accepted => s.accept.map fun (connfd, s) => { s with stage := .accepted connfd }
  | .emfile => if lowestFree s.descriptors = none then some { s with stage := .closeIdle } else none
  | .failed => some s

def proceed (succeeds : Bool) (s : Acceptor) : Option Acceptor :=
  match s.stage with
  | .waiting | .destroyed => none
  | .accepted connfd => some { s.newConnection connfd with stage := .waiting }
  | .closeIdle => some { s.close s.idleFd with stage := .acceptIdle }
  | .acceptIdle =>
    if succeeds then s.accept.map fun (fd, s) => { s with idleFd := some fd, stage := .closeAccepted }
    else some { s with idleFd := none, stage := .closeAccepted }
  | .closeAccepted => some { s.close s.idleFd with stage := .openIdle }
  | .openIdle =>
    if succeeds then (lowestFree s.descriptors).map fun fd =>
      { s with descriptors := s.descriptors.set fd (some .idle), idleFd := some fd, stage := .waiting }
    else some { s with idleFd := none, stage := .waiting }

def step (s : Acceptor) : AcceptorEvent → Option Acceptor
  | .connect => some { s with pending := s.pending ++ [s.arrived], arrived := s.arrived + 1 }
  | .reset c =>
    if c ∈ s.pending then some { s with pending := s.pending.erase c, resets := c :: s.resets } else none
  | .openOther => (lowestFree s.descriptors).map fun fd => { s with descriptors := s.descriptors.set fd (some .other) }
  | .closeOther fd =>
    match slot s.descriptors fd with
    | some d => if d.isOwn then none else some { s with descriptors := s.descriptors.set fd none }
    | none => none
  | .handleRead result => if s.stage = .waiting then s.handleRead result else none
  | .proceed succeeds => s.proceed succeeds
  | .destroy => if s.stage = .waiting then some { s.close s.idleFd with stage := .destroyed } else none

def system : Stepper Acceptor AcceptorEvent := ⟨step⟩

/-- An acceptor that listens, in a process with room for so many descriptors. -/
def new (limit : Nat) (newConnectionCallback : Bool) : Acceptor :=
  { descriptors := some .other :: some .idle :: List.replicate limit none, idleFd := some 1, newConnectionCallback }

end Acceptor
end Muduo
