import Mathlib.Logic.Function.Basic
import Muduo.Lib.Stepper

/-! # The thread pool

`ThreadPool` after `start`: the workers, the threads that are in `run`, and the thread that calls `stop`. A step
of a thread is an access to what the threads share: an atomic operation, an operation of a semaphore, or a critical
section of the mutex of a worker. The signal of a worker is a counter here. -/

namespace Muduo
open Lib

structure WorkerState (Task : Type) where
  queue : List Task := []
  signal : Nat := 0

/-- Where a worker is in `runInThread`. -/
inductive WorkerAt (Task : Type) where
  | testRunning
  | popOwn
  | testQueued
  /-- Before the `try_to_lock` of the worker so many places further. -/
  | steal (i : Nat)
  | running (task : Task)
  /-- Before `signal.acquire()`, or blocked in it. -/
  | acquire
  | finished

/-- Where a thread is in `run`, with its task as long as it is not pushed. -/
inductive ProducerAt (n : Nat) (Task : Type) where
  | run (task : Task)
  /-- The test of `running_` in `enqueueTask`. -/
  | testRunning (task : Task)
  | incrementWaiting (task : Task)
  /-- Before `queueSlots_->acquire()`, or blocked in it. -/
  | acquireSlot (task : Task)
  | decrementWaiting (task : Task)
  /-- The second test of `running_`. -/
  | retestRunning (task : Task)
  | releaseSlot
  | nextWorker (task : Task)
  | push (task : Task) (index : Fin n)
  | incrementQueued (index : Fin n) (needsWake : Bool)
  | releaseSignal (index : Fin n)
  | returned

/-- Where a thread is in `stop`. -/
inductive StopAt where
  | notCalled
  | clearRunning
  | exchangeWaiting
  | releaseSlots (waiting : Int)
  | releaseSignal (i : Nat)
  | join (i : Nat)
  /-- All workers are joined; `queueSlots_` is about to be destroyed. -/
  | reset
  | returned
  deriving DecidableEq

structure ThreadPool (n : Nat) (Task : Type) where
  isRunning : Bool := true
  /-- The free slots, unless the queue is unbounded. -/
  queueSlots : Option Nat
  waitingProducers : Int := 0
  nextWorker : UInt64 := 0
  queuedTasks : UInt64 := 0
  workers : Fin n → WorkerState Task := fun _ => {}
  workerAt : Fin n → WorkerAt Task := fun _ => .testRunning
  producers : List (ProducerAt n Task) := []
  stopAt : StopAt := .notCalled
  /-- The tasks that were pushed, and those that were popped, with the worker that has popped each. -/
  pushed : List Task := []
  popped : List (Fin n × Task) := []

namespace ThreadPool
variable {n : Nat} {Task : Type}

/-- After `start`. -/
def started (n : Nat) (Task : Type) (maxQueueSize : Nat) : ThreadPool n Task :=
  { queueSlots := if maxQueueSize > 0 then some maxQueueSize else none }

def setQueue (i : Fin n) (queue : List Task) (s : ThreadPool n Task) : ThreadPool n Task :=
  { s with workers := Function.update s.workers i { s.workers i with queue } }

def setSignal (i : Fin n) (signal : Nat) (s : ThreadPool n Task) : ThreadPool n Task :=
  { s with workers := Function.update s.workers i { s.workers i with signal } }

def goTo (i : Fin n) (at' : WorkerAt Task) (s : ThreadPool n Task) : ThreadPool n Task :=
  { s with workerAt := Function.update s.workerAt i at' }

/-- A worker takes a task out of a queue, which leaves the others, and frees its slot. -/
def take (i owner : Fin n) (task : Task) (rest : List Task) (s : ThreadPool n Task) : ThreadPool n Task :=
  { (s.setQueue owner rest).goTo i (.running task) with
    queuedTasks := s.queuedTasks - 1
    queueSlots := s.queueSlots.map (· + 1)
    popped := (i, task) :: s.popped }

def popOwn (i : Fin n) (s : ThreadPool n Task) : ThreadPool n Task :=
  match (s.workers i).queue with
  | [] => s.goTo i .testQueued
  | task :: rest => s.take i i task rest

/-- The victim of the steal so many places further. -/
def victim (i : Fin n) (k : Nat) : Fin n := ⟨(i + k) % n, Nat.mod_lt _ i.pos⟩

/-- A turn of the loop over the victims; `try_to_lock` may fail. -/
def steal (i : Fin n) (k : Nat) (locked : Bool) (s : ThreadPool n Task) : ThreadPool n Task :=
  if k < n then
    match locked, (s.workers (victim i k)).queue.getLast? with
    | true, some task => s.take i (victim i k) task (s.workers (victim i k)).queue.dropLast
    | _, _ => s.goTo i (.steal (k + 1))
  else s.goTo i .acquire

/-- The next step of a worker, if it is not blocked. -/
def worker (i : Fin n) (locked : Bool) (s : ThreadPool n Task) : Option (ThreadPool n Task) :=
  match s.workerAt i with
  | .testRunning => some (s.goTo i (if s.isRunning then .popOwn else .finished))
  | .popOwn => some (s.popOwn i)
  | .testQueued => some (s.goTo i (if s.queuedTasks = 0 then .acquire else .steal 1))
  | .steal k => some (s.steal i k locked)
  -- The task returns.
  | .running _ => some (s.goTo i .testRunning)
  | .acquire =>
    match (s.workers i).signal with
    | 0 => none
    | signal + 1 => some ((s.setSignal i signal).goTo i .testRunning)
  | .finished => none

/-- The push of `enqueueSharded`, under the mutex of the worker. -/
def pushTask (task : Task) (i : Fin n) (s : ThreadPool n Task) : ThreadPool n Task :=
  { s.setQueue i ((s.workers i).queue ++ [task]) with pushed := task :: s.pushed }

/-- The next step of a thread in `run`, if it is not blocked, and where the thread is then. -/
def producer (s : ThreadPool n Task) : ProducerAt n Task → Option (ProducerAt n Task × ThreadPool n Task)
  | .run task =>
    -- The pool has been started; without threads the task is run in place.
    if !s.isRunning then some (.returned, s)
    else if n = 0 then some (.returned, s)
    else some (.testRunning task, s)
  | .testRunning task =>
    if !s.isRunning then some (.returned, s)
    else if s.queueSlots.isSome then some (.incrementWaiting task, s)
    else some (.nextWorker task, s)
  | .incrementWaiting task => some (.acquireSlot task, { s with waitingProducers := s.waitingProducers + 1 })
  | .acquireSlot task =>
    match s.queueSlots with
    | some (free + 1) => some (.decrementWaiting task, { s with queueSlots := some free })
    | _ => none
  | .decrementWaiting task => some (.retestRunning task, { s with waitingProducers := s.waitingProducers - 1 })
  | .retestRunning task => some (if s.isRunning then .nextWorker task else .releaseSlot, s)
  | .releaseSlot => some (.returned, { s with queueSlots := s.queueSlots.map (· + 1) })
  | .nextWorker task =>
    if h : 0 < n then
      some (.push task ⟨s.nextWorker.toNat % n, Nat.mod_lt _ h⟩, { s with nextWorker := s.nextWorker + 1 })
    else some (.returned, s)
  | .push task i => some (.incrementQueued i (s.workers i).queue.isEmpty, s.pushTask task i)
  | .incrementQueued i needsWake =>
    some (if needsWake then .releaseSignal i else .returned, { s with queuedTasks := s.queuedTasks + 1 })
  | .releaseSignal i => some (.returned, s.setSignal i ((s.workers i).signal + 1))
  | .returned => none

/-- The next step of `stop`, if it is not blocked. -/
def stop (s : ThreadPool n Task) : Option (ThreadPool n Task) :=
  match s.stopAt with
  | .notCalled => some { s with stopAt := if s.isRunning then .clearRunning else .returned }
  | .clearRunning =>
    some { s with isRunning := false, stopAt := if s.queueSlots.isSome then .exchangeWaiting else .releaseSignal 0 }
  | .exchangeWaiting => some { s with stopAt := .releaseSlots s.waitingProducers, waitingProducers := 0 }
  | .releaseSlots waiting =>
    some { s with stopAt := .releaseSignal 0, queueSlots := s.queueSlots.map (· + waiting.toNat) }
  | .releaseSignal i =>
    if h : i < n then some { s.setSignal ⟨i, h⟩ ((s.workers ⟨i, h⟩).signal + 1) with stopAt := .releaseSignal (i + 1) }
    else some { s with stopAt := .join 0 }
  | .join i =>
    if h : i < n then
      match s.workerAt ⟨i, h⟩ with
      | .finished => some { s with stopAt := .join (i + 1) }
      | _ => none
    else some { s with stopAt := .reset }
  | .reset => some { s with stopAt := .returned, workers := fun _ => {}, queueSlots := none, queuedTasks := 0 }
  | .returned => none

inductive Event (n : Nat) (Task : Type) where
  /-- A thread calls `run`. -/
  | run (task : Task)
  | producer (k : Nat)
  | worker (i : Fin n) (locked : Bool)
  | stop

def step (s : ThreadPool n Task) : Event n Task → Option (ThreadPool n Task)
  | .run task => some { s with producers := s.producers ++ [.run task] }
  | .producer k =>
    match s.producers[k]? with
    | none => none
    | some p => (s.producer p).map fun r => { r.2 with producers := s.producers.set k r.1 }
  | .worker i locked => s.worker i locked
  | .stop => s.stop

def system (n : Nat) (Task : Type) : Stepper (ThreadPool n Task) (Event n Task) := ⟨step⟩

end ThreadPool
end Muduo
