import Muduo.EventLoop

/-! # A thread that runs an event loop

`EventLoopThread`: the owner calls `startLoop`, waits until the thread has published its loop, and later destroys
the object, which asks the loop to quit and joins the thread. -/

namespace Muduo

/-- Where the thread is in `threadFunc`. -/
inductive ThreadAt where
  | notStarted
  /-- The loop is constructed; the init callback runs. -/
  | callback
  | publish
  /-- `loop_` is published; `loop` is not entered, or has not cleared `quit_`. -/
  | beforeLoop
  | inLoop
  /-- `loop` has returned; `loop_` is about to be cleared. -/
  | clear
  | finished
  deriving DecidableEq

/-- Where the owner is in `startLoop`, and then in the destructor. -/
inductive OwnerAt where
  | startLoop
  /-- In `cond_.wait`. -/
  | wait
  /-- `startLoop` has returned; the destructor will read `loop_`. -/
  | readLoop
  | storeQuit
  | wakeup
  | join
  | destroyed
  deriving DecidableEq

structure EventLoopThread (F Tid : Type) where
  loop : LoopThreads F Tid := {}
  /-- `loop_` is not null. -/
  published : Bool := false
  threadAt : ThreadAt := .notStarted
  ownerAt : OwnerAt := .startLoop

namespace EventLoopThread
variable {F Tid : Type} [DecidableEq Tid]

/-- A step of `startLoop` or of the destructor, if the owner is not blocked. -/
def owner (s : EventLoopThread F Tid) : Option (EventLoopThread F Tid) :=
  match s.ownerAt with
  | .startLoop => some { s with ownerAt := .wait, threadAt := .callback }
  | .wait => if s.published then some { s with ownerAt := .readLoop } else none
  | .readLoop => some { s with ownerAt := if s.published then .storeQuit else .destroyed }
  | .storeQuit => some { s with ownerAt := .wakeup, loop := { s.loop with quit := true } }
  | .wakeup => some { s with ownerAt := .join, loop := { s.loop with queue := s.loop.queue.wakeup } }
  | .join => if s.threadAt = .finished then some { s with ownerAt := .destroyed } else none
  | .destroyed => none

/-- A step of `threadFunc` outside `loop`. -/
def threadFunc (s : EventLoopThread F Tid) : Option (EventLoopThread F Tid) :=
  match s.threadAt with
  | .callback => some { s with threadAt := .publish }
  | .publish => some { s with threadAt := .beforeLoop, published := true }
  | .clear => some { s with threadAt := .finished, published := false }
  | .notStarted | .beforeLoop | .inLoop | .finished => none

/-- The thread may call functions of the loop: another thread while the loop exists, the loop thread from the init
callback and inside `loop`. -/
def usesLoop (loopThread : Tid) (s : EventLoopThread F Tid) (thread : Tid) : Bool :=
  if thread = loopThread then s.threadAt = .callback || s.threadAt = .inLoop
  else s.threadAt ≠ .notStarted && s.threadAt ≠ .finished

/-- A step of `loop`, or of a thread that uses the loop. -/
def loopStep (loopThread : Tid) (s : EventLoopThread F Tid) (e : LoopEvent F Tid) : Option (EventLoopThread F Tid) :=
  match e with
  | .pushBack thread _ | .wakeupIfNeeded thread | .quit thread =>
    if usesLoop loopThread s thread then (s.loop.step loopThread e).map fun loop => { s with loop } else none
  | .enterLoop =>
    if s.threadAt = .beforeLoop then (s.loop.step loopThread e).map fun loop => { s with loop, threadAt := .inLoop }
    else none
  | _ =>
    if s.threadAt = .inLoop then
      (s.loop.step loopThread e).map fun loop =>
        { s with loop, threadAt := if loop.phase = .outside then .clear else .inLoop }
    else none

inductive Event (F Tid : Type) where
  | owner
  | threadFunc
  | loop (e : LoopEvent F Tid)

def step (loopThread : Tid) (s : EventLoopThread F Tid) : Event F Tid → Option (EventLoopThread F Tid)
  | .owner => s.owner
  -- The init callback returns only when it is not inside `queueInLoop`.
  | .threadFunc => if loopThread ∈ s.loop.queueing then none else s.threadFunc
  | .loop e => s.loopStep loopThread e

/-- The owner and the loop thread, with any number of threads that use the loop. -/
def system (loopThread : Tid) : Lib.Stepper (EventLoopThread F Tid) (Event F Tid) := ⟨step loopThread⟩

end EventLoopThread
end Muduo
