import Mathlib.Logic.Function.Basic
import Muduo.Lib.Stepper

/-! # Asynchronous logging

`AsyncLogging`: threads append lines to the buffers of their shards, and a backend thread collects the buffers and
writes them to a log file. A step is a critical section of the mutex of a shard, or a step of the backend on what only
it uses. The backend waits with a timeout, so `wakeup_` decides only when it goes on, and is left out. The size of a
buffer is a parameter; it is `kLargeBuffer` in the source. -/

namespace Muduo

/-- A line, with the shard it was appended to and the number of lines that were appended before it. -/
structure LogLine (n : Nat) where
  shard : Fin n
  number : Nat
  text : List Char
  deriving DecidableEq

/-- A `FixedBuffer`, as what each call of `append` has copied into it. -/
structure FixedBuffer (n : Nat) where
  lines : List (LogLine n) := []

namespace FixedBuffer
variable {n : Nat}

def length (b : FixedBuffer n) : Nat := (b.lines.flatMap LogLine.text).length

def avail (size : Nat) (b : FixedBuffer n) : Nat := size - b.length

/-- Copies as much of the line as there is room for. -/
def append (size : Nat) (b : FixedBuffer n) (line : LogLine n) : FixedBuffer n :=
  { lines := b.lines ++ [{ line with text := line.text.take (b.avail size) }] }

def reset (_ : FixedBuffer n) : FixedBuffer n := {}

end FixedBuffer

/-- The buffers of the backend and those of `globalPool_`. They are reset when they are taken. -/
structure FreeBuffers (n : Nat) where
  spareBuffers : List (FixedBuffer n) := []
  globalPool : List (FixedBuffer n) := List.replicate 16 {}

namespace FreeBuffers
variable {n : Nat}

def kGlobalPoolMax : Nat := 64

def acquireBuffer (free : FreeBuffers n) : FixedBuffer n × FreeBuffers n :=
  match free.globalPool.getLast? with
  | some buffer => (buffer.reset, { free with globalPool := free.globalPool.dropLast })
  | none => ({}, free)

def recycleBuffer (globalPool : List (FixedBuffer n)) (buffer : FixedBuffer n) : List (FixedBuffer n) :=
  if globalPool.length < kGlobalPoolMax then globalPool ++ [buffer.reset] else globalPool

/-- A spare buffer, or else one of the pool. -/
def spareBuffer (free : FreeBuffers n) : FixedBuffer n × FreeBuffers n :=
  match free.spareBuffers.getLast? with
  | some buffer => (buffer.reset, { free with spareBuffers := free.spareBuffers.dropLast })
  | none => free.acquireBuffer

end FreeBuffers

/-- A pointer that was moved from is null. -/
structure Shard (n : Nat) where
  currentBuffer : Option (FixedBuffer n) := some {}
  nextBuffer : Option (FixedBuffer n) := some {}
  buffers : List (FixedBuffer n) := []

namespace Shard
variable {n : Nat}

/-- The critical section of `append`. -/
def append (size : Nat) (line : LogLine n) (shard : Shard n) (free : FreeBuffers n) : Shard n × FreeBuffers n :=
  match shard.currentBuffer with
  -- The null pointer would be dereferenced.
  | none => (shard, free)
  | some current =>
    if current.avail size ≥ line.text.length then
      ({ shard with currentBuffer := some (current.append size line) }, free)
    else
      match shard.nextBuffer with
      | some next =>
        ({ currentBuffer := some (next.append size line)
           nextBuffer := none
           buffers := shard.buffers ++ [current] }, free)
      | none =>
        ({ currentBuffer := some (free.acquireBuffer.1.append size line)
           nextBuffer := none
           buffers := shard.buffers ++ [current] }, free.acquireBuffer.2)

/-- In `collect`: a current buffer with data is moved to the others. -/
def rotate (shard : Shard n) (free : FreeBuffers n) : Shard n × FreeBuffers n :=
  match shard.currentBuffer with
  | none => (shard, free)
  | some current =>
    if current.length > 0 then
      match shard.nextBuffer with
      | some next =>
        ({ currentBuffer := some next, nextBuffer := none, buffers := shard.buffers ++ [current] }, free)
      | none =>
        ({ currentBuffer := some free.spareBuffer.1
           nextBuffer := none
           buffers := shard.buffers ++ [current] }, free.spareBuffer.2)
    else (shard, free)

/-- In `collect`: a missing next buffer is replenished. -/
def replenish (shard : Shard n) (free : FreeBuffers n) : Shard n × FreeBuffers n :=
  match shard.nextBuffer with
  | some _ => (shard, free)
  | none => ({ shard with nextBuffer := some free.spareBuffer.1 }, free.spareBuffer.2)

/-- `collect` for one shard, up to the move of its buffers. -/
def collect (shard : Shard n) (free : FreeBuffers n) : Shard n × FreeBuffers n :=
  (shard.rotate free).1.replenish (shard.rotate free).2

end Shard

inductive LogRecord (n : Nat) where
  | line (line : LogLine n)
  | notice (text : List Char)

/-- Where the backend is in `threadFunc`. -/
inductive BackendAt where
  | notRunning
  /-- The test of `stop_requested`. -/
  | test
  | wait
  /-- Before a shard in `collect`, in a round or after the last one. -/
  | collect (i : Nat) (last : Bool)
  | limit
  /-- So many buffers of `buffersToWrite` are written. -/
  | write (k : Nat) (last : Bool)
  | finished
  deriving DecidableEq

/-- Where the thread that starts and stops the logger is, with the number of lines that were appended before it has
called `stop`. -/
inductive ControlAt where
  | idle
  | requestStop (before : Nat)
  | join (before : Nat)
  | stopped (before : Nat)
  deriving DecidableEq

def ControlAt.inStop : ControlAt → Bool
  | .idle | .stopped _ => false
  | .requestStop _ | .join _ => true

structure AsyncLogging (n : Nat) where
  started : Bool := false
  stopRequested : Bool := false
  shards : Fin n → Shard n := fun _ => {}
  free : FreeBuffers n := {}
  buffersToWrite : List (FixedBuffer n) := []
  output : List (LogRecord n) := []
  backendAt : BackendAt := .notRunning
  controlAt : ControlAt := .idle
  /-- The lines in the order in which `append` has locked the shards. -/
  appended : List (LogLine n) := []
  /-- The lines of the buffers that were erased. -/
  erased : List (LogLine n) := []

namespace AsyncLogging
variable {n : Nat}

def append (size : Nat) (i : Fin n) (text : List Char) (s : AsyncLogging n) : AsyncLogging n :=
  let line : LogLine n := ⟨i, s.appended.length, text⟩
  let result := (s.shards i).append size line s.free
  { s with shards := Function.update s.shards i result.1, free := result.2, appended := s.appended ++ [line] }

/-- A new thread is in `threadFunc`, with a stop token of its own. -/
def start (s : AsyncLogging n) : AsyncLogging n :=
  if s.started then s
  else
    { s with
      started := true
      stopRequested := false
      buffersToWrite := []
      free := { s.free with spareBuffers := List.replicate 16 {} }
      backendAt := .test
      controlAt := .idle }

def stop (s : AsyncLogging n) : AsyncLogging n :=
  if s.started then { s with started := false, controlAt := .requestStop s.appended.length } else s

/-- The rest of `stop`, after it has stored `started_`. -/
def stopThread (s : AsyncLogging n) : Option (AsyncLogging n) :=
  match s.controlAt with
  | .idle | .stopped _ => none
  | .requestStop before => some { s with stopRequested := true, controlAt := .join before }
  | .join before => if s.backendAt = .finished then some { s with controlAt := .stopped before } else none

/-- `collect` for one shard. -/
def collectShard (i : Fin n) (s : AsyncLogging n) : AsyncLogging n :=
  let result := (s.shards i).collect s.free
  { s with
    shards := Function.update s.shards i { result.1 with buffers := [] }
    free := result.2
    buffersToWrite := s.buffersToWrite ++ result.1.buffers }

/-- The text is cut to the size of the array it is formatted into. -/
def droppedMessage (now : String) (buffers : Nat) : List Char :=
  ("Dropped log messages at " ++ now ++ ", " ++ toString buffers ++ " larger buffers\n").toList.take 255

/-- The branch for more than 25 buffers. -/
def dropBuffers (now : String) (s : AsyncLogging n) : AsyncLogging n :=
  if s.buffersToWrite.length > 25 then
    { s with
      output := s.output ++ [.notice (droppedMessage now (s.buffersToWrite.length - 2))]
      buffersToWrite := s.buffersToWrite.take 2
      erased := s.erased ++ (s.buffersToWrite.drop 2).flatMap FixedBuffer.lines }
  else s

/-- After the writes of a round: the first buffers are kept as spare ones, with their contents. -/
def keepSpareBuffers (s : AsyncLogging n) : AsyncLogging n :=
  { s with
    free := { s.free with
      spareBuffers := s.free.spareBuffers ++ s.buffersToWrite.take (32 - s.free.spareBuffers.length) }
    buffersToWrite := [] }

/-- The end of `threadFunc`. -/
def recycleBuffers (s : AsyncLogging n) : AsyncLogging n :=
  { s with
    free := {
      spareBuffers := []
      globalPool := (s.free.spareBuffers ++ s.buffersToWrite).foldl FreeBuffers.recycleBuffer s.free.globalPool }
    buffersToWrite := [] }

/-- A step of `threadFunc`; `now` is the formatted time. -/
def threadFunc (now : String) (s : AsyncLogging n) : Option (AsyncLogging n) :=
  match s.backendAt with
  | .notRunning | .finished => none
  | .test => some { s with backendAt := if s.stopRequested then .collect 0 true else .wait }
  | .wait => some { s with backendAt := .collect 0 false }
  | .collect i last =>
    if h : i < n then some { s.collectShard ⟨i, h⟩ with backendAt := .collect (i + 1) last }
    else if last then some { s with backendAt := .write 0 true }
    else some { s with backendAt := if s.buffersToWrite.isEmpty then .test else .limit }
  | .limit => some { s.dropBuffers now with backendAt := .write 0 false }
  | .write k last =>
    match s.buffersToWrite[k]? with
    | some buffer =>
      some { s with output := s.output ++ buffer.lines.map .line, backendAt := .write (k + 1) last }
    | none =>
      if last then some { s.recycleBuffers with backendAt := .finished }
      else some { s.keepSpareBuffers with backendAt := .test }

inductive Event (n : Nat) where
  | append (shard : Fin n) (text : List Char)
  | start
  | stop
  | stopThread
  | backend (now : String)

def step (size : Nat) (s : AsyncLogging n) : Event n → Option (AsyncLogging n)
  | .append i text => some (s.append size i text)
  -- One thread starts and stops the logger.
  | .start => if s.controlAt.inStop then none else some s.start
  | .stop => if s.controlAt.inStop then none else some s.stop
  | .stopThread => s.stopThread
  | .backend now => s.threadFunc now

def system (n size : Nat) : Lib.Stepper (AsyncLogging n) (Event n) := ⟨step size⟩

end AsyncLogging
end Muduo
