import Mathlib.Data.Fintype.Basic
import Muduo.ThreadPool

/-! # Futures of the thread pool

`ThreadPool::submit`: a task that sets a promise, the future of which the caller gets. The promise is shared by the task
and, until it returns, by `submit`; when both have let go of it and no value was set, its future has the error of a
broken promise. A task here is the number of its promise, or none if it was given to `run`. No function throws. -/

namespace Muduo
open Lib

/-- The promise of a call of `submit`, with who shares it. -/
structure SharedPromise (R : Type) where
  value : Option R := none
  inTask : Bool := true
  inSubmit : Bool := true
  deriving DecidableEq

/-- The promise was destroyed without a value. -/
def SharedPromise.broken {R : Type} (p : SharedPromise R) : Bool := p.value.isNone && !p.inTask && !p.inSubmit

namespace ProducerAt
variable {n : Nat} {Task : Type}

/-- The task, as long as it is not pushed. -/
def task : ProducerAt n Task → Option Task
  | .run task | .testRunning task | .incrementWaiting task | .acquireSlot task | .decrementWaiting task
  | .retestRunning task | .nextWorker task | .push task _ => some task
  | .releaseSlot | .incrementQueued _ _ | .releaseSignal _ | .returned => none

/-- The task that is destroyed, not pushed, by a step. -/
def dropped : ProducerAt n Task → ProducerAt n Task → Option Task
  | .push _ _, _ => none
  | p, p' => if p'.task.isSome then none else p.task

def isReturned : ProducerAt n Task → Bool
  | .returned => true
  | _ => false

end ProducerAt

def WorkerAt.task {Task : Type} : WorkerAt Task → Option Task
  | .running task => some task
  | .testRunning | .popOwn | .testQueued | .steal _ | .acquire | .finished => none

structure FuturePool (n : Nat) (R : Type) where
  pool : ThreadPool n (Option Nat)
  promises : List (SharedPromise R) := []
  /-- The promises of the threads in `run` and `submit`. -/
  callers : List (Option Nat) := []
  /-- The promises of the threads that run the task in `submit`. -/
  inPlace : List Nat := []
  /-- The functions that were called, newest first. -/
  called : List Nat := []

namespace FuturePool
variable {n : Nat} {R : Type}

def started (n : Nat) (R : Type) (maxQueueSize : Nat) : FuturePool n R :=
  { pool := ThreadPool.started n (Option Nat) maxQueueSize }

/-- The function of a task returns, the promise is set and the task destroyed. -/
def finishTask (task : Option Nat) (result : R) (s : FuturePool n R) : FuturePool n R :=
  match task with
  | none => s
  | some k =>
    { s with
      promises := s.promises.modify k fun p => { p with value := some result, inTask := false }
      called := k :: s.called }

/-- A task is destroyed that has not run. -/
def dropTask (task : Option Nat) (s : FuturePool n R) : FuturePool n R :=
  match task with
  | none => s
  | some k => { s with promises := s.promises.modify k fun p => { p with inTask := false } }

/-- `submit` returns. -/
def leave (caller : Option Nat) (s : FuturePool n R) : FuturePool n R :=
  match caller with
  | none => s
  | some k => { s with promises := s.promises.modify k fun p => { p with inSubmit := false } }

/-- The start of `submit`, up to the test whether there are threads. -/
def submit (s : FuturePool n R) : FuturePool n R :=
  let k := s.promises.length
  let s := { s with promises := s.promises ++ [({} : SharedPromise R)] }
  if n = 0 ∨ s.pool.isRunning = false then { s with inPlace := s.inPlace ++ [k] }
  else
    { s with
      pool := { s.pool with producers := s.pool.producers ++ [.testRunning (some k)] }
      callers := s.callers ++ [some k] }

/-- A thread in `submit` calls the function, and returns. -/
def runInPlace (j : Nat) (result : R) (s : FuturePool n R) : Option (FuturePool n R) :=
  match s.inPlace[j]? with
  | none => none
  | some k => some (({ s with inPlace := s.inPlace.eraseIdx j }.finishTask (some k) result).leave (some k))

/-- A step of a thread in `enqueueTask`, or in `run` before it. -/
def producer (j : Nat) (s : FuturePool n R) : Option (FuturePool n R) :=
  match s.pool.producers[j]? with
  | none => none
  | some p =>
    match s.pool.producer p with
    | none => none
    | some (p', pool) =>
      let s := { s with pool := { pool with producers := s.pool.producers.set j p' } }
      let s := s.dropTask (p.dropped p').join
      some (if p'.isReturned then s.leave (s.callers[j]?.join) else s)

/-- A step of a worker; a task that runs returns the result. -/
def worker (i : Fin n) (locked : Bool) (result : R) (s : FuturePool n R) : Option (FuturePool n R) :=
  match s.pool.worker i locked with
  | none => none
  | some pool => some ({ s with pool }.finishTask (s.pool.workerAt i).task.join result)

/-- `workers_.clear()` destroys the tasks in the queues. -/
def stop (s : FuturePool n R) : Option (FuturePool n R) :=
  match s.pool.stop with
  | none => none
  | some pool =>
    if s.pool.stopAt = .reset then
      some { s with
        pool
        promises := s.promises.mapIdx fun k p =>
          if ∃ i, some k ∈ (s.pool.workers i).queue then { p with inTask := false } else p }
    else some { s with pool }

inductive Event (n : Nat) (R : Type) where
  | run
  | submit
  | runInPlace (j : Nat) (result : R)
  | producer (j : Nat)
  | worker (i : Fin n) (locked : Bool) (result : R)
  | stop

def step (s : FuturePool n R) : Event n R → Option (FuturePool n R)
  | .run =>
    some { s with
      pool := { s.pool with producers := s.pool.producers ++ [.run none] }
      callers := s.callers ++ [none] }
  | .submit => some s.submit
  | .runInPlace j result => s.runInPlace j result
  | .producer j => s.producer j
  | .worker i locked result => s.worker i locked result
  | .stop => s.stop

def system (n : Nat) (R : Type) : Stepper (FuturePool n R) (Event n R) := ⟨step⟩

end FuturePool
end Muduo
