import Mathlib.Algebra.Group.Nat.Defs
import Muduo.Lib.Stepper

/-! # The functor queue of an event loop

`EventLoop` owns a vector of functors that any thread may append to and that the loop thread takes out,
a batch at a time, at the end of each iteration. An `eventfd` wakes the loop thread out of `poll`. This
file holds the queue itself and the threads around it: each thread that is inside `queueInLoop`, and the
loop thread at each point of `EventLoop::loop` and `doPendingFunctors` where another thread may act. -/

namespace Muduo

structure LoopQueue (F : Type) where
  pendingFunctors : List F := []
  /-- The batch that `doPendingFunctors` swapped out, without what it already ran. -/
  functors : List F := []
  callingPendingFunctors : Bool := false
  wakeupFd : Nat := 0

namespace LoopQueue
variable {F : Type}

def eventfdMax : Nat := 2 ^ 64 - 2

/-- A write of one to the eventfd; it is non-blocking, so a write that does not fit fails. -/
def wakeup (q : LoopQueue F) : LoopQueue F :=
  if q.wakeupFd < eventfdMax then { q with wakeupFd := q.wakeupFd + 1 } else q

def handleRead (q : LoopQueue F) : LoopQueue F := { q with wakeupFd := 0 }

/-- `queueInLoop` up to the end of its critical section. -/
def pushBack (q : LoopQueue F) (f : F) : LoopQueue F :=
  { q with pendingFunctors := q.pendingFunctors ++ [f] }

/-- The rest of `queueInLoop`, after its critical section. -/
def wakeupIfNeeded (q : LoopQueue F) (inLoopThread : Bool) : LoopQueue F :=
  if !inLoopThread || q.callingPendingFunctors then q.wakeup else q

def queueInLoop (q : LoopQueue F) (inLoopThread : Bool) (f : F) : LoopQueue F :=
  (q.pushBack f).wakeupIfNeeded inLoopThread

/-- The swap of `doPendingFunctors`, under the mutex. -/
def swapFunctors (q : LoopQueue F) : LoopQueue F :=
  { q with functors := q.pendingFunctors, pendingFunctors := [] }

section Fields
variable {q : LoopQueue F} {f : F}

@[simp] theorem wakeup_pendingFunctors : q.wakeup.pendingFunctors = q.pendingFunctors := by
  unfold wakeup; split <;> rfl

@[simp] theorem wakeup_functors : q.wakeup.functors = q.functors := by
  unfold wakeup; split <;> rfl

@[simp] theorem wakeup_calling : q.wakeup.callingPendingFunctors = q.callingPendingFunctors := by
  unfold wakeup; split <;> rfl

/-- A wakeup leaves the counter of the eventfd above zero, also when the write does not fit. -/
theorem wakeup_ne_zero : q.wakeup.wakeupFd ≠ 0 := by
  unfold wakeup
  split
  · exact Nat.succ_ne_zero _
  · rename_i h
    simp only [eventfdMax] at h
    omega

/-- The end of `queueInLoop` is a wakeup, or nothing in the loop thread while no functor runs. -/
theorem wakeupIfNeeded_cases (inLoopThread : Bool) :
    q.wakeupIfNeeded inLoopThread = q.wakeup ∨
      (inLoopThread = true ∧ q.callingPendingFunctors = false ∧ q.wakeupIfNeeded inLoopThread = q) := by
  unfold wakeupIfNeeded
  cases inLoopThread <;> cases hc : q.callingPendingFunctors <;> simp

@[simp] theorem wakeupIfNeeded_pendingFunctors (b : Bool) :
    (q.wakeupIfNeeded b).pendingFunctors = q.pendingFunctors := by
  rcases wakeupIfNeeded_cases (q := q) b with h | ⟨-, -, h⟩ <;> rw [h]
  exact wakeup_pendingFunctors

@[simp] theorem wakeupIfNeeded_functors (b : Bool) : (q.wakeupIfNeeded b).functors = q.functors := by
  rcases wakeupIfNeeded_cases (q := q) b with h | ⟨-, -, h⟩ <;> rw [h]
  exact wakeup_functors

@[simp] theorem wakeupIfNeeded_calling (b : Bool) :
    (q.wakeupIfNeeded b).callingPendingFunctors = q.callingPendingFunctors := by
  rcases wakeupIfNeeded_cases (q := q) b with h | ⟨-, -, h⟩ <;> rw [h]
  exact wakeup_calling

@[simp] theorem queueInLoop_pendingFunctors (b : Bool) :
    (q.queueInLoop b f).pendingFunctors = q.pendingFunctors ++ [f] :=
  wakeupIfNeeded_pendingFunctors b

@[simp] theorem queueInLoop_functors (b : Bool) : (q.queueInLoop b f).functors = q.functors :=
  wakeupIfNeeded_functors b

end Fields
end LoopQueue

inductive Phase where
  /-- Outside `loop`: before it is entered, or after it has returned. -/
  | outside
  | test
  | polling
  /-- Running event handlers; the wakeup channel may be among the active ones and not handled yet. -/
  | handling (wakeupActive : Bool)
  /-- In `doPendingFunctors`, with the flag raised, before the swap. -/
  | swapping
  | running
  /-- In `doPendingFunctors`, with the flag lowered: the vector of the batch is being destroyed. -/
  | destroying
  deriving DecidableEq

/-- A functor in the queue, with the number of batches that were swapped out before it was queued. -/
structure Queued (F : Type) where
  functor : F
  queuedIn : Nat
  deriving DecidableEq

/-- A loop and the threads that use it. -/
structure LoopThreads (F Tid : Type) where
  queue : LoopQueue (Queued F) := {}
  phase : Phase := .outside
  quit : Bool := false
  /-- The threads that are in `queueInLoop`, past the critical section. -/
  queueing : List Tid := []
  batches : Nat := 0
  /-- The functors in the order in which `push_back` took the mutex. -/
  pushed : List (Queued F) := []
  /-- The functors that were run, each with its batch, oldest first. -/
  executed : List (Queued F × Nat) := []

inductive LoopEvent (F Tid : Type) where
  | pushBack (thread : Tid) (f : F)
  | wakeupIfNeeded (thread : Tid)
  | quit (thread : Tid)
  | enterLoop
  | testQuit
  | pollReturns (wakeupActive : Bool)
  | handleRead
  | beginFunctors
  | swapFunctors
  | runFunctor
  | endFunctors
  | destroyFunctors

/-- User code of the loop thread runs: before or after `loop`, in an event handler, in a functor, and in
    the destructor of what a functor captured. -/
def Phase.inUserCode : Phase → Bool
  | .outside | .handling _ | .running | .destroying => true
  | .test | .polling | .swapping => false

namespace LoopThreads
variable {F Tid : Type} [DecidableEq Tid]

/-- A step of a thread other than the loop thread, or of user code in the loop thread. -/
def threadStep (loopThread : Tid) (s : LoopThreads F Tid) : LoopEvent F Tid → Option (LoopThreads F Tid)
  | .pushBack t f =>
    if t ∉ s.queueing ∧ (t = loopThread → s.phase.inUserCode = true) then
      let entry := ⟨f, s.batches⟩
      some { s with
        queue := s.queue.pushBack entry
        pushed := s.pushed ++ [entry]
        queueing := t :: s.queueing }
    else none
  | .wakeupIfNeeded t =>
    if t ∈ s.queueing then
      some { s with
        queue := s.queue.wakeupIfNeeded (t = loopThread)
        queueing := s.queueing.filter (· ≠ t) }
    else none
  | .quit t => some { s with quit := true, queue := if t = loopThread then s.queue else s.queue.wakeup }
  | _ => none

/-- A step of `loop` and `doPendingFunctors`. -/
def loopStep (s : LoopThreads F Tid) : LoopEvent F Tid → Option (LoopThreads F Tid)
  | .enterLoop => if s.phase = .outside then some { s with phase := .test, quit := false } else none
  | .testQuit =>
    if s.phase = .test then some { s with phase := if s.quit then .outside else .polling } else none
  | .pollReturns wakeupActive =>
    -- `poll` may return with nothing ready; the wakeup channel is only reported when the counter is not zero.
    if s.phase = .polling ∧ (wakeupActive = true → s.queue.wakeupFd ≠ 0) then
      some { s with phase := .handling wakeupActive }
    else none
  | .handleRead =>
    if s.phase = .handling true then
      some { s with queue := s.queue.handleRead, phase := .handling false }
    else none
  | .beginFunctors =>
    if s.phase = .handling false then
      some { s with queue := { s.queue with callingPendingFunctors := true }, phase := .swapping }
    else none
  | .swapFunctors =>
    if s.phase = .swapping then
      some { s with queue := s.queue.swapFunctors, phase := .running, batches := s.batches + 1 }
    else none
  | .runFunctor =>
    match s.phase, s.queue.functors with
    | .running, f :: rest =>
      some { s with
        queue := { s.queue with functors := rest }
        executed := s.executed ++ [(f, s.batches)] }
    | _, _ => none
  | .endFunctors =>
    if s.phase = .running ∧ s.queue.functors.isEmpty = true then
      some { s with queue := { s.queue with callingPendingFunctors := false }, phase := .destroying }
    else none
  | .destroyFunctors => if s.phase = .destroying then some { s with phase := .test } else none
  | _ => none

def step (loopThread : Tid) (s : LoopThreads F Tid) (e : LoopEvent F Tid) : Option (LoopThreads F Tid) :=
  match e with
  | .pushBack _ _ | .wakeupIfNeeded _ | .quit _ => s.threadStep loopThread e
  -- The loop thread goes on only when it is not inside `queueInLoop` itself.
  | _ => if loopThread ∈ s.queueing then none else s.loopStep e

/-- Any number of threads that queue functors, interleaved with the iterations of the loop thread. -/
def stepper (loopThread : Tid) : Lib.Stepper (LoopThreads F Tid) (LoopEvent F Tid) := ⟨step loopThread⟩

end LoopThreads
end Muduo
