import Muduo.Connector

/-! # A connector and its owner

The owner of a `Connector` starts and stops it and drops it in the loop thread, at any time and also from the
new-connection callback. Retry timers and the functors of `stop` hold a weak reference, so they find nothing
once the connector is destroyed; the functors that reset the channel hold a strong one, so the destructor waits
for them. -/

namespace Muduo
open Lib

structure ConnectorLoop where
  site : ConnectorSite
  /-- How many functors of `stop` are queued. They may run in any order with the other functors. -/
  stops : Nat := 0
  /-- The owner has dropped its reference. -/
  released : Bool := false
  destroyed : Bool := false
  /-- `stopInLoop` has followed `channel_` while there was none. -/
  nullChannel : Bool := false

/-- A retry timer that finds no connector. -/
def ConnectorSite.popTimer (s : ConnectorSite) : ConnectorSite :=
  { s with connector := { s.connector with retryTimers := s.connector.retryTimers.tail } }

namespace ConnectorLoop

def setSite (s : ConnectorSite) (w : ConnectorLoop) : ConnectorLoop := { w with site := s }

def onSite (f : ConnectorSite → ConnectorSite) (w : ConnectorLoop) : ConnectorLoop := w.setSite (f w.site)

/-- The destructor, once no reference is left. -/
def destroyUnreferenced (w : ConnectorLoop) : ConnectorLoop :=
  if w.released ∧ ¬w.destroyed ∧ w.site.queuedResets = [] then { w.onSite ConnectorSite.destroy with destroyed := true } else w

/-- A call of the owner, which needs a reference. -/
def owned (f : ConnectorLoop → ConnectorLoop) (w : ConnectorLoop) : ConnectorLoop := if w.released then w else f w

/-- What a timer or a functor does through its weak reference. -/
def locked (f : ConnectorLoop → ConnectorLoop) (w : ConnectorLoop) : ConnectorLoop := if w.destroyed then w else f w

def start (a : Attempt) : ConnectorLoop → ConnectorLoop := owned (onSite (ConnectorSite.start a))

def stop : ConnectorLoop → ConnectorLoop :=
  owned fun w =>
    { w.onSite fun s => { s with connector := { s.connector with connect := false } } with stops := w.stops + 1 }

def release : ConnectorLoop → ConnectorLoop := owned fun w => { w with released := true }.destroyUnreferenced

/-- A retry timer fires. -/
def retryTimer (a : Attempt) (w : ConnectorLoop) : ConnectorLoop :=
  if w.destroyed then w.onSite ConnectorSite.popTimer else w.onSite (ConnectorSite.retryTimer a)

/-- A functor of `stop` runs. -/
def stopInLoop (w : ConnectorLoop) : ConnectorLoop :=
  locked
    (fun w =>
      { w.onSite ConnectorSite.stopInLoop with
        nullChannel :=
          w.nullChannel || (w.site.connector.state = .kConnecting && w.site.connector.channel.isNone) })
    { w with stops := w.stops - 1 }

def doPendingFunctors : ConnectorLoop → ConnectorLoop :=
  onSite fun s => { s with loop := { s.loop with queue := s.loop.queue.swapFunctors } }

/-- The first functor of the batch runs; only the resets of the connector matter to it. -/
def runFunctor (w : ConnectorLoop) : ConnectorLoop :=
  match w.site.loop.queue.functors with
  | [] => w
  | f :: rest =>
    let w := w.onSite fun s => { s with loop := { s.loop with queue := { s.loop.queue with functors := rest } } }
    match f.reset? w.site.connector.id with
    | none => w
    | some n => (w.onSite (ConnectorSite.resetChannel n)).destroyUnreferenced

/-- `Channel::handleEvent` of the channel of the connector. -/
def handleEvent (revents : Mask) (soError : Nat) (isSelfConnect : Bool) : Code ConnectorLoop Nat Unit := do
  let w ← Code.get
  match w.site.connector.channel with
  | none => pure ()
  | some c => do
    (ConnectorSite.handleEvent c.id.attempt revents soError isSelfConnect).handle site setSite Code.callback
    Code.modify destroyUnreferenced

inductive Op where
  | start (a : Attempt)
  | stop
  | release

inductive Top where
  | handleEvent (revents : Mask) (soError : Nat) (isSelfConnect : Bool)
  | retryTimer (a : Attempt)
  | stopInLoop
  | doPendingFunctors
  | runFunctor

def perform : Op → ConnectorLoop → ConnectorLoop
  | .start a => start a
  | .stop => stop
  | .release => release

def top : Top → Code ConnectorLoop Nat Unit
  | .handleEvent revents soError isSelfConnect => handleEvent revents soError isSelfConnect
  | .retryTimer a => Code.modify (retryTimer a)
  | .stopInLoop => Code.modify stopInLoop
  | .doPendingFunctors => Code.modify doPendingFunctors
  | .runFunctor => Code.modify runFunctor

def enabled : Top → ConnectorLoop → Bool
  | .handleEvent _ _ _, w => w.site.connector.channel.isSome
  | .retryTimer _, w => !w.site.connector.retryTimers.isEmpty
  | .stopInLoop, w => 0 < w.stops
  | .doPendingFunctors, w => w.site.loop.queue.functors.isEmpty
  | .runFunctor, w => !w.site.loop.queue.functors.isEmpty

/-- A connector, its owner, and its loop; its callback is the new-connection callback, with the socket. -/
def system : Reentrant ConnectorLoop Nat Op Top := ⟨fun op => Code.modify (perform op), top, enabled⟩

end ConnectorLoop
end Muduo
