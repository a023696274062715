import Mathlib.Algebra.Group.Int.Defs
import Mathlib.Data.Prod.Lex
import Muduo.Lib.OrderedSet
import Muduo.Lib.Reentrant

/-! # Timers

`TimerQueue` keeps three containers: the timers by expiration, the sequence numbers of the timers that
wait, and the owners of all timers. `handleRead` takes the expired timers out of the first two, runs
their callbacks, which may add and cancel timers, and then restarts the repeating ones.

Times are microseconds. Every reading of the clock is an input. -/

namespace Muduo
open Lib

/-- `Timer`, without its callback. -/
structure Timer where
  expiration : Int
  interval : Int
  sequence : Int
  deriving DecidableEq

namespace Timer

def repeats (t : Timer) : Bool := 0 < t.interval

def restart (t : Timer) (now : Int) : Timer :=
  if t.repeats then { t with expiration := now + t.interval } else { t with expiration := 0 }

end Timer

/-- `TimerQueue::Entry`, ordered by expiration and then by sequence number. -/
structure Entry where
  expiration : Int
  sequence : Int
  deriving DecidableEq

namespace Entry

instance : LinearOrder Entry :=
  LinearOrder.lift' (fun e => toLex (e.expiration, e.sequence)) fun a b h => by
    cases a
    cases b
    simpa using h

end Entry

/-- The asserts of `TimerQueue.cc`, in the order of the source. -/
inductive TimerAssert where
  | addSizes
  | addOwnerInserted
  | cancelSizes
  | cancelOwner
  | cancelErased
  | cancelOwnersErased
  | cancelSizesAfter
  | expiredSizes
  | expiredErased
  | expiredSizesAfter
  | resetOwnersErased
  | insertSizes
  | insertTimer
  | insertActive
  | insertSizesAfter
  deriving DecidableEq

structure TimerQueue where
  timers : OrderedSet Entry := ∅
  activeTimers : OrderedSet Int := ∅
  callingExpiredTimers : Bool := false
  cancelingTimers : OrderedSet Int := ∅
  timerOwners : Int → Option Timer := fun _ => none
  /-- When the timerfd becomes readable, or became so, if it was set and not read since it fired. -/
  timerfd : Option Int := none
  /-- When the timerfd was last set. -/
  armedAt : Int := 0
  batch : List Entry := []
  /-- The entries of the batch whose turn has not come. -/
  waiting : List Entry := []
  failed : List TimerAssert := []

namespace TimerQueue

/-- `assert`: in a build without them the code goes on. -/
def check (q : TimerQueue) (a : TimerAssert) (holds : Bool) : TimerQueue :=
  if holds then q else { q with failed := a :: q.failed }

def checkSizes (q : TimerQueue) (a : TimerAssert) : TimerQueue :=
  q.check a (q.timers.size = q.activeTimers.size)

/-- `howMuchTimeFromNow`: at least a hundred microseconds. -/
def howMuchTimeFromNow (expiration clock : Int) : Int := max (expiration - clock) 100

def resetTimerfd (q : TimerQueue) (expiration clock : Int) : TimerQueue :=
  { q with timerfd := some (clock + howMuchTimeFromNow expiration clock), armedAt := clock }

/-- The timerfd is read: nothing is there to read before it fires, and it fires once. -/
def readTimerfd (q : TimerQueue) (now : Int) : TimerQueue :=
  match q.timerfd with
  | none => q
  | some deadline => if deadline ≤ now then { q with timerfd := none } else q

def setOwner (q : TimerQueue) (t : Timer) : TimerQueue :=
  { q with timerOwners := fun n => if n = t.sequence then some t else q.timerOwners n }

def eraseOwner (q : TimerQueue) (sequence : Int) : TimerQueue :=
  { q with timerOwners := fun n => if n = sequence then none else q.timerOwners n }

/-- The expiration of the first timer lies after `expiration`, or there is none. -/
def earliestChanges (q : TimerQueue) (expiration : Int) : Bool :=
  match q.timers.head? with
  | none => true
  | some first => expiration < first.expiration

/-- `insertTimer`, without its result. -/
def insertTimer (q : TimerQueue) (t : Timer) : TimerQueue :=
  let q := q.checkSizes .insertSizes
  let entry := ⟨t.expiration, t.sequence⟩
  let q := q.check .insertTimer (entry ∉ q.timers)
  let q := { q with timers := q.timers.insert entry }
  let q := q.check .insertActive (t.sequence ∉ q.activeTimers)
  let q := { q with activeTimers := q.activeTimers.insert t.sequence }
  q.checkSizes .insertSizesAfter

def addTimerInLoop (q : TimerQueue) (t : Timer) (clock : Int) : TimerQueue :=
  let q := q.checkSizes .addSizes
  let earliestChanged := q.earliestChanges t.expiration
  let q := q.insertTimer t
  let inserted := (q.timerOwners t.sequence).isNone
  -- `emplace` leaves an owner that is there already.
  let q := if inserted then q.setOwner t else q
  let q := q.check .addOwnerInserted inserted
  if earliestChanged then q.resetTimerfd t.expiration clock else q

def cancelInLoop (q : TimerQueue) (sequence : Int) : TimerQueue :=
  let q := q.checkSizes .cancelSizes
  -- `TimerId::valid`
  if sequence ≤ 0 then q
  else if sequence ∈ q.activeTimers then
    match q.timerOwners sequence with
    | none => q.check .cancelOwner false
    | some t =>
      let entry := ⟨t.expiration, sequence⟩
      let q := q.check .cancelErased (entry ∈ q.timers)
      let q := { q with timers := q.timers.erase entry }
      let q := q.check .cancelOwnersErased (q.timerOwners sequence).isSome
      let q := q.eraseOwner sequence
      let q := { q with activeTimers := q.activeTimers.erase sequence }
      q.checkSizes .cancelSizesAfter
  else
    let q :=
      if q.callingExpiredTimers then { q with cancelingTimers := q.cancelingTimers.insert sequence } else q
    q.checkSizes .cancelSizesAfter

/-- The largest sequence number, `std::numeric_limits<TimerSequence>::max()`. -/
def maxSequence : Int := 2 ^ 63 - 1

def expiredEntries (q : TimerQueue) (now : Int) : List Entry := q.timers.upTo ⟨now, maxSequence⟩

def eraseActive (q : TimerQueue) (e : Entry) : TimerQueue :=
  let q := q.check .expiredErased (e.sequence ∈ q.activeTimers)
  { q with activeTimers := q.activeTimers.erase e.sequence }

/-- `getExpired`, without its result. -/
def getExpired (q : TimerQueue) (now : Int) : TimerQueue :=
  let q := q.checkSizes .expiredSizes
  let expired := q.expiredEntries now
  let q := { q with timers := q.timers.above ⟨now, maxSequence⟩ }
  let q := expired.foldl eraseActive q
  q.checkSizes .expiredSizesAfter

/-- What `reset` does with one entry of the batch. -/
def resetEntry (now : Int) (q : TimerQueue) (e : Entry) : TimerQueue :=
  match q.timerOwners e.sequence with
  | none => q
  | some t =>
    if t.repeats ∧ e.sequence ∉ q.cancelingTimers then
      let t := t.restart now
      -- The owner holds the timer itself, so the restart changes what it owns.
      (q.setOwner t).insertTimer t
    else
      (q.check .resetOwnersErased (q.timerOwners e.sequence).isSome).eraseOwner e.sequence

def reset (q : TimerQueue) (expired : List Entry) (now clock : Int) : TimerQueue :=
  let q := expired.foldl (resetEntry now) q
  match q.timers.head? with
  | none => q
  | some first => if 0 < first.expiration then q.resetTimerfd first.expiration clock else q

end TimerQueue

/-! ## The loop and the threads around a timer queue -/

/-- What other threads queue in the loop. -/
inductive TimerFunctor where
  | addTimerInLoop (t : Timer)
  | cancelInLoop (sequence : Int)
  deriving DecidableEq

/-- What happens to a timer, as far as its user can tell. -/
inductive TimerEvent where
  | returned (sequence : Int)
  /-- `cancel` is executed in the loop thread. -/
  | canceled (sequence : Int)
  | started (sequence : Int)
  deriving DecidableEq

structure TimerLoop where
  queue : TimerQueue := {}
  numCreated : Int := 0
  /-- Timers that other threads have created and not queued yet. -/
  inHand : List Timer := []
  pendingFunctors : List TimerFunctor := []
  /-- What happened so far, newest first. -/
  log : List TimerEvent := []

namespace TimerLoop

def addTimerInLoop (t : Timer) (clock : Int) (s : TimerLoop) : TimerLoop :=
  { s with queue := s.queue.addTimerInLoop t clock }

def cancelInLoop (sequence : Int) (s : TimerLoop) : TimerLoop :=
  { s with queue := s.queue.cancelInLoop sequence, log := .canceled sequence :: s.log }

def newTimer (s : TimerLoop) (expiration interval : Int) : Timer := ⟨expiration, interval, s.numCreated + 1⟩

/-- `addTimer` called in the loop thread: the timer is added at once. -/
def addTimer (expiration interval clock : Int) (s : TimerLoop) : TimerLoop :=
  let t := s.newTimer expiration interval
  let s := addTimerInLoop t clock { s with numCreated := t.sequence }
  { s with log := .returned t.sequence :: s.log }

/-- `addTimer` called in another thread creates the timer. -/
def createElsewhere (expiration interval : Int) (s : TimerLoop) : TimerLoop :=
  let t := s.newTimer expiration interval
  { s with numCreated := t.sequence, inHand := s.inHand ++ [t] }

/-- `addTimer` called in another thread queues the timer it created, and returns its id. -/
def queueElsewhere (t : Timer) (s : TimerLoop) : TimerLoop :=
  if t ∈ s.inHand then
    { s with
      inHand := s.inHand.erase t
      pendingFunctors := s.pendingFunctors ++ [.addTimerInLoop t]
      log := .returned t.sequence :: s.log }
  else s

def cancelElsewhere (sequence : Int) (s : TimerLoop) : TimerLoop :=
  { s with pendingFunctors := s.pendingFunctors ++ [.cancelInLoop sequence] }

/-- The turn of an entry of the batch comes, and `rest` still waits. -/
def takeNext (rest : List Entry) (s : TimerLoop) : TimerLoop :=
  { s with queue := { s.queue with waiting := rest } }

def start (sequence : Int) (s : TimerLoop) : TimerLoop := { s with log := .started sequence :: s.log }

/-- The callbacks of the expired timers, in order; the callback of a timer is named by its sequence
    number. -/
def runExpired : List Entry → Code TimerLoop Int Unit
  | [] => pure ()
  | e :: rest => do
    let s ← Code.get
    Code.modify (takeNext rest)
    if (s.queue.timerOwners e.sequence).isSome then
      Code.modify (start e.sequence)
      Code.callback e.sequence
    runExpired rest

/-- `handleRead` up to the first callback. -/
def beginExpired (now : Int) (s : TimerLoop) : TimerLoop :=
  let expired := s.queue.expiredEntries now
  { s with queue :=
    { (s.queue.readTimerfd now).getExpired now with
      callingExpiredTimers := true
      cancelingTimers := ∅
      batch := expired
      waiting := expired } }

/-- `handleRead` after the last callback. -/
def endExpired (expired : List Entry) (now clock : Int) (s : TimerLoop) : TimerLoop :=
  let q := { s.queue with callingExpiredTimers := false }
  { s with queue := { q.reset expired now clock with batch := [], waiting := [] } }

/-- `handleRead`; `now` is its reading of the clock, `clock` the one of `reset`. -/
def handleRead (now clock : Int) : Code TimerLoop Int Unit := do
  let s ← Code.get
  let expired := s.queue.expiredEntries now
  Code.modify (beginExpired now)
  runExpired expired
  Code.modify (endExpired expired now clock)

def runFunctor (clock : Int) (s : TimerLoop) : TimerLoop :=
  match s.pendingFunctors with
  | [] => s
  | .addTimerInLoop t :: rest => addTimerInLoop t clock { s with pendingFunctors := rest }
  | .cancelInLoop sequence :: rest => cancelInLoop sequence { s with pendingFunctors := rest }

/-- What may happen at any time, also while callbacks run: calls from user code in the loop thread, and
    the steps of other threads. -/
inductive Op where
  | addTimer (expiration interval clock : Int)
  | cancel (sequence : Int)
  | createElsewhere (expiration interval : Int)
  | queueElsewhere (t : Timer)
  | cancelElsewhere (sequence : Int)

inductive Top where
  | handleRead (now clock : Int)
  | runFunctor (clock : Int)

def perform : Op → TimerLoop → TimerLoop
  | .addTimer expiration interval clock => addTimer expiration interval clock
  | .cancel sequence => cancelInLoop sequence
  | .createElsewhere expiration interval => createElsewhere expiration interval
  | .queueElsewhere t => queueElsewhere t
  | .cancelElsewhere sequence => cancelElsewhere sequence

def top : Top → Code TimerLoop Int Unit
  | .handleRead now clock => handleRead now clock
  | .runFunctor clock => Code.modify (runFunctor clock)

def system : Reentrant TimerLoop Int Op Top := ⟨fun op => Code.modify (perform op), top, fun _ _ => true⟩

end TimerLoop
end Muduo
