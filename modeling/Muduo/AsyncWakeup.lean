import Muduo.AsyncLogging

/-! # Waking the backend

`AsyncLogging` with its semaphore `wakeup_`. A thread whose line did not fit into the current buffer releases it after
it has left the mutex of its shard; `request_stop` calls the stop callback of the backend, which releases it in the
thread that is in `stop`; the backend acquires it with a timeout. The semaphore is a counter here. -/

namespace Muduo

/-- The next step of `stop` is `request_stop`. -/
def ControlAt.requestsStop : ControlAt → Bool
  | .requestStop _ => true
  | .idle | .join _ | .stopped _ => false

structure AsyncWakeup (n : Nat) where
  logger : AsyncLogging n := {}
  wakeup : Nat := 0
  /-- The threads that have left the mutex in `append` with `needWakeup`. -/
  releasing : Nat := 0
  /-- `request_stop` has set the flag and has still to call the callback. -/
  callback : Bool := false

namespace AsyncWakeup
variable {n : Nat}

def kLargeBuffer : Nat := 4000 * 1000

/-- What `append` finds out about the line under the mutex. -/
def needWakeup (size : Nat) (i : Fin n) (text : List Char) (s : AsyncLogging n) : Bool :=
  match (s.shards i).currentBuffer with
  | none => false
  | some current => current.avail size < text.length

def append (size : Nat) (i : Fin n) (text : List Char) (s : AsyncWakeup n) : AsyncWakeup n :=
  { s with
    logger := s.logger.append size i text
    releasing := if needWakeup size i text s.logger then s.releasing + 1 else s.releasing }

/-- The release of `append`. -/
def release (s : AsyncWakeup n) : Option (AsyncWakeup n) :=
  match s.releasing with
  | 0 => none
  | releasing + 1 => some { s with releasing, wakeup := s.wakeup + 1 }

/-- The callback runs in `request_stop`, so `stop` does not go on before it. -/
def stopThread (s : AsyncWakeup n) : Option (AsyncWakeup n) :=
  if s.callback then none
  else s.logger.stopThread.map fun logger => { s with logger, callback := s.logger.controlAt.requestsStop }

/-- The release of `wakeOnStop`. -/
def stopCallback (s : AsyncWakeup n) : Option (AsyncWakeup n) :=
  if s.callback then some { s with callback := false, wakeup := s.wakeup + 1 } else none

/-- A step of the backend; the timed acquire takes the permit or gives up. -/
def backend (now : String) (acquired : Bool) (s : AsyncWakeup n) : Option (AsyncWakeup n) :=
  if s.logger.backendAt = .wait ∧ acquired then
    match s.wakeup with
    | 0 => none
    | wakeup + 1 => (s.logger.threadFunc now).map fun logger => { s with logger, wakeup }
  else (s.logger.threadFunc now).map fun logger => { s with logger }

inductive Event (n : Nat) where
  | append (shard : Fin n) (text : List Char)
  | release
  | start
  | stop
  | stopThread
  | stopCallback
  | backend (now : String) (acquired : Bool)

def step (size : Nat) (s : AsyncWakeup n) : Event n → Option (AsyncWakeup n)
  | .append i text => some (s.append size i text)
  | .release => s.release
  | .start => (s.logger.step size .start).map fun logger => { s with logger }
  | .stop => (s.logger.step size .stop).map fun logger => { s with logger }
  | .stopThread => s.stopThread
  | .stopCallback => s.stopCallback
  | .backend now acquired => s.backend now acquired

def system (n size : Nat) : Lib.Stepper (AsyncWakeup n) (Event n) := ⟨step size⟩

end AsyncWakeup
end Muduo
