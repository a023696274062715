import Muduo.ConnectorLoop

/-! # A connector and the time

`Connector::retry` calls `runAfter` with the delay it has reached, so a retry timer fires when that time has passed, or
later. Time passes between the events of the loop, in milliseconds. -/

namespace Muduo
open Lib

namespace ConnectorLoop

/-- The owner asks for an attempt. -/
def asks : Reentrant.Event Op Top → Nat
  | .call (.start _) => 1
  | _ => 0

/-- The first retry timer fires. -/
def fires : Reentrant.Event Op Top → Nat
  | .top (.retryTimer _) => 1
  | _ => 0

end ConnectorLoop

structure TimedConnector where
  config : Config ConnectorLoop Nat
  now : Nat := 0
  /-- When the retry timers that wait are due, in the order of `retryTimers`. -/
  deadlines : List Nat := []
  /-- How often `start` was called, and how many retry timers have fired. -/
  starts : Nat := 0
  fired : Nat := 0

inductive TimedEvent where
  | elapse (ms : Nat)
  | loop (e : Reentrant.Event ConnectorLoop.Op ConnectorLoop.Top)

namespace TimedConnector
open ConnectorLoop (asks fires)

/-- No time has passed, and no callback runs. -/
def new (w : ConnectorLoop) : TimedConnector := { config := ⟨w, []⟩ }

def connector (t : TimedConnector) : Connector := t.config.state.site.connector

/-- A timer does not fire before it is due. -/
def due (e : Reentrant.Event ConnectorLoop.Op ConnectorLoop.Top) (t : TimedConnector) : Bool :=
  (t.deadlines.take (fires e)).all (· ≤ t.now)

/-- The deadlines that are left when a timer has fired. -/
def waiting (e : Reentrant.Event ConnectorLoop.Op ConnectorLoop.Top) (t : TimedConnector) : List Nat :=
  t.deadlines.drop (fires e)

/-- An event has led to `c`: the timers it has set are due after their delays. -/
def advance (e : Reentrant.Event ConnectorLoop.Op ConnectorLoop.Top) (t : TimedConnector)
    (c : Config ConnectorLoop Nat) : TimedConnector where
  config := c
  now := t.now
  deadlines := t.waiting e ++ (c.state.site.connector.retryTimers.drop (t.waiting e).length).map (t.now + ·)
  starts := t.starts + asks e
  fired := t.fired + fires e

def step (t : TimedConnector) : TimedEvent → Option TimedConnector
  | .elapse ms => some { t with now := t.now + ms }
  | .loop e => if t.due e then (ConnectorLoop.system.step t.config e).map (t.advance e) else none

def system : Stepper TimedConnector TimedEvent := ⟨step⟩

end TimedConnector
end Muduo
