import Muduo.Lib.Monitor

/-! # The bounded blocking queue

`BoundedBlockingQueue` as a monitor: each call is what it does with the mutex held, from the predicate of its wait on.
`put`, `emplace` and `take` notify after they have unlocked the mutex, `try_take` before. The construction of an element
does not throw. -/

namespace Muduo
open Lib

/-- The condition variables of the queue. -/
inductive QueueCond where
  | notEmpty
  | notFull
  deriving DecidableEq

inductive QueueCall (α : Type) where
  | put (x : α)
  /-- `emplace`, with the element that its arguments construct. -/
  | emplace (x : α)
  | take
  /-- `take` with a stop token, named by its source. -/
  | takeUntilStop (source : Nat)
  | tryTake
  deriving DecidableEq

structure BoundedBlockingQueue (α : Type) where
  maxSize : Nat
  queue : List α := []
  /-- The sources on which a stop was requested. -/
  stopRequested : List Nat := []
  /-- All elements that were put, in the order of the lock. -/
  allPut : List α := []
  /-- All elements that were taken, in the order of the lock. -/
  allTaken : List α := []

namespace BoundedBlockingQueue
variable {α : Type}

def new (maxSize : Int) : Except String (BoundedBlockingQueue α) :=
  if maxSize ≤ 0 then .error "BoundedBlockingQueue maxSize must be > 0" else .ok { maxSize := maxSize.toNat }

def empty (q : BoundedBlockingQueue α) : Bool := q.queue.isEmpty

def full (q : BoundedBlockingQueue α) : Bool := q.queue.length = q.maxSize

def size (q : BoundedBlockingQueue α) : Nat := q.queue.length

def pushBack (q : BoundedBlockingQueue α) (x : α) : BoundedBlockingQueue α :=
  { q with queue := q.queue ++ [x], allPut := q.allPut ++ [x] }

/-- `pop_front`, of the `front` before `rest`. -/
def popFront (q : BoundedBlockingQueue α) (front : α) (rest : List α) : BoundedBlockingQueue α :=
  { q with queue := rest, allTaken := q.allTaken ++ [front] }

def put (x : α) (q : BoundedBlockingQueue α) : Monitor.Attempt (BoundedBlockingQueue α) QueueCond (Option α) :=
  if q.size < q.maxSize then .leaveNotify (q.pushBack x) none .notEmpty else .wait .notFull

def emplace (x : α) (q : BoundedBlockingQueue α) : Monitor.Attempt (BoundedBlockingQueue α) QueueCond (Option α) :=
  put x q

def take (q : BoundedBlockingQueue α) : Monitor.Attempt (BoundedBlockingQueue α) QueueCond (Option α) :=
  match q.queue with
  | [] => .wait .notEmpty
  | front :: rest => .leaveNotify (q.popFront front rest) (some front) .notFull

def takeUntilStop (source : Nat) (q : BoundedBlockingQueue α) :
    Monitor.Attempt (BoundedBlockingQueue α) QueueCond (Option α) :=
  -- The wait is over when the predicate holds or a stop is requested, and the predicate is looked at again.
  if !q.empty || source ∈ q.stopRequested then
    match q.queue with
    | [] => .leave q none
    | front :: rest => .leaveNotify (q.popFront front rest) (some front) .notFull
  else .wait .notEmpty

def tryTake (q : BoundedBlockingQueue α) : Monitor.Attempt (BoundedBlockingQueue α) QueueCond (Option α) :=
  match q.queue with
  | [] => .leave q none
  | front :: rest => .notifyLeave (q.popFront front rest) (some front) .notFull

def attempt : QueueCall α → BoundedBlockingQueue α → Monitor.Attempt (BoundedBlockingQueue α) QueueCond (Option α)
  | .put x => put x
  | .emplace x => emplace x
  | .take => take
  | .takeUntilStop source => takeUntilStop source
  | .tryTake => tryTake

/-- A stop is requested. That its callbacks notify all waiters is an event of its own, as any wakeup is. -/
def requestStop (source : Nat) (q : BoundedBlockingQueue α) : BoundedBlockingQueue α :=
  { q with stopRequested := source :: q.stopRequested }

/-- The queue and the calls of all threads; the external events are stop requests. -/
def monitor (α : Type) : Monitor (BoundedBlockingQueue α) QueueCond (QueueCall α) (Option α) Nat :=
  ⟨attempt, requestStop⟩

end BoundedBlockingQueue
end Muduo
