import Muduo.Lib.Monitor

/-! # The blocking queue

`BlockingQueue` as a monitor: each call is what it does with the mutex held, from the predicate of its wait on. The calls
that add an element notify after they have unlocked the mutex, the others notify nobody. -/

namespace Muduo
open Lib

namespace BlockingQueue

/-- The condition variable of the queue. -/
inductive Cond where
  | notEmpty
  deriving DecidableEq

inductive Call (α : Type) where
  | put (x : α)
  /-- `emplace`, with the element that its arguments construct. -/
  | emplace (x : α)
  | take
  /-- `take` with a stop token, named by its source. -/
  | takeUntilStop (source : Nat)
  | tryTake
  | drain
  | size
  | empty
  deriving DecidableEq

inductive Result (α : Type) where
  | unit
  | taken (x : Option α)
  | drained (xs : List α)
  | size (n : Nat)
  | empty (b : Bool)
  deriving DecidableEq

end BlockingQueue

structure BlockingQueue (α : Type) where
  queue : List α := []
  /-- The sources on which a stop was requested. -/
  stopRequested : List Nat := []
  /-- All elements that were put, in the order of the lock. -/
  allPut : List α := []
  /-- All elements that were taken, in the order of the lock. -/
  allTaken : List α := []

namespace BlockingQueue
variable {α : Type}

abbrev Attempt (α : Type) := Monitor.Attempt (BlockingQueue α) Cond (Result α)

def emplaceBack (q : BlockingQueue α) (x : α) : BlockingQueue α :=
  { q with queue := q.queue ++ [x], allPut := q.allPut ++ [x] }

/-- `pop_front`, of the `front` before `rest`. -/
def popFront (q : BlockingQueue α) (front : α) (rest : List α) : BlockingQueue α :=
  { q with queue := rest, allTaken := q.allTaken ++ [front] }

def put (x : α) (q : BlockingQueue α) : Attempt α := .leaveNotify (q.emplaceBack x) .unit .notEmpty

def emplace (x : α) (q : BlockingQueue α) : Attempt α := put x q

def take (q : BlockingQueue α) : Attempt α :=
  match q.queue with
  | [] => .wait .notEmpty
  | front :: rest => .leave (q.popFront front rest) (.taken (some front))

def takeUntilStop (source : Nat) (q : BlockingQueue α) : Attempt α :=
  -- The wait is over when the predicate holds or a stop is requested, and the predicate is looked at again.
  if !q.queue.isEmpty || source ∈ q.stopRequested then
    match q.queue with
    | [] => .leave q (.taken none)
    | front :: rest => .leave (q.popFront front rest) (.taken (some front))
  else .wait .notEmpty

def tryTake (q : BlockingQueue α) : Attempt α :=
  match q.queue with
  | [] => .leave q (.taken none)
  | front :: rest => .leave (q.popFront front rest) (.taken (some front))

def drain (q : BlockingQueue α) : Attempt α :=
  .leave { q with queue := [], allTaken := q.allTaken ++ q.queue } (.drained q.queue)

def size (q : BlockingQueue α) : Attempt α := .leave q (.size q.queue.length)

def empty (q : BlockingQueue α) : Attempt α := .leave q (.empty q.queue.isEmpty)

def attempt : Call α → BlockingQueue α → Attempt α
  | .put x => put x
  | .emplace x => emplace x
  | .take => take
  | .takeUntilStop source => takeUntilStop source
  | .tryTake => tryTake
  | .drain => drain
  | .size => size
  | .empty => empty

/-- A stop is requested. That its callbacks notify all waiters is an event of its own, as any wakeup is. -/
def requestStop (source : Nat) (q : BlockingQueue α) : BlockingQueue α :=
  { q with stopRequested := source :: q.stopRequested }

/-- The queue and the calls of all threads; the external events are stop requests. -/
def monitor (α : Type) : Monitor (BlockingQueue α) Cond (Call α) (Result α) Nat := ⟨attempt, requestStop⟩

end BlockingQueue
end Muduo
