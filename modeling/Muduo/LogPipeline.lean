import Muduo.AsyncLogging
import Muduo.LogFile

/-! # The backend and its log file

`AsyncLogging::threadFunc` with the `LogFile` it makes when it begins and appends to: the notice of a drop, and the
buffers as a whole. The characters of the lines are bytes. -/

namespace Muduo
open Lib

def bytesOf (text : List Char) : Bytes := text.map fun ch => UInt8.ofNat ch.toNat

def FixedBuffer.toStringView {n : Nat} (b : FixedBuffer n) : List Char := b.lines.flatMap LogLine.text

/-- When no backend runs, `output` is that of the last one. -/
structure LogPipeline (n : Nat) where
  logging : AsyncLogging n := {}
  output : LogFile := {}

namespace LogPipeline
variable {n : Nat} (c : LogFileConfig) (clock : Nat → Int)

/-- The `LogFile` of a new thread. What was written before is on disk, and the clock has gone on. -/
def openOutput (before : LogFile) : LogFile :=
  (LogFile.rollFile c clock { readings := before.readings, written := before.written, rolled := before.rolled }).2

/-- What a step of `threadFunc` does with `output`. None is where a null pointer would be dereferenced. -/
def useOutput (now : String) (p : LogPipeline n) : Option LogFile :=
  match p.logging.backendAt with
  | .limit =>
    if p.logging.buffersToWrite.length > 25 then
      p.output.appendUnlocked c clock (bytesOf (AsyncLogging.droppedMessage now (p.logging.buffersToWrite.length - 2)))
    else some p.output
  | .write k _ =>
    match p.logging.buffersToWrite[k]? with
    | some buffer => p.output.appendUnlocked c clock (bytesOf buffer.toStringView)
    | none => p.output.step c clock .flush
  | .notRunning | .test | .wait | .collect _ _ | .finished => some p.output

def step (size : Nat) (p : LogPipeline n) (e : AsyncLogging.Event n) : Option (LogPipeline n) :=
  match p.logging.step size e with
  | none => none
  | some logging =>
    match e with
    | .append _ _ | .stop | .stopThread => some { p with logging := logging }
    -- `start` returns when the thread has made its `LogFile`.
    | .start => some ⟨logging, if p.logging.started then p.output else openOutput c clock p.output⟩
    | .backend now =>
      match p.useOutput c clock now with
      | none => none
      | some output => some ⟨logging, output⟩

def system (n size : Nat) : Stepper (LogPipeline n) (AsyncLogging.Event n) := ⟨step c clock size⟩

end LogPipeline
end Muduo
