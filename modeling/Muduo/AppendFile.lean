import Muduo.Buffer
import Muduo.Lib.While

/-! # Appending to a file

`FileUtil::AppendFile`: a line goes into a file opened with `O_APPEND` by as many calls of `write` as it takes. What
the calls return is given as a sequence. -/

namespace Muduo
open Lib

/-- What a call of `write` returns. -/
inductive WriteReturn where
  /-- So many bytes were written, or all of them if there were fewer. -/
  | count (n : Nat)
  /-- The error is `EINTR`. -/
  | interrupted
  | error (errno : Nat)
  deriving DecidableEq

structure AppendFile where
  /-- `fd_` is not negative. -/
  isOpen : Bool := true
  writtenBytes : Nat := 0
  /-- What has reached the file through this object. -/
  contents : Bytes := []
  /-- What the calls of `write` have returned so far. -/
  returned : List WriteReturn := []
  /-- The calls of `reportIoError`. -/
  reports : Nat := 0
  deriving DecidableEq

namespace AppendFile

/-- The loop of `appendBytes`. -/
structure AppendLoop where
  file : AppendFile
  offset : Nat := 0
  /-- It was left by the return behind `reportIoError`. -/
  failed : Bool := false

def goesOn (bytes : Bytes) (s : AppendLoop) : Bool := s.offset < bytes.length && !s.failed

/-- A turn of the loop; `results` are the returns of `write`, from the first call on. -/
def writeChunk (results : Nat → WriteReturn) (bytes : Bytes) (s : AppendLoop) : AppendLoop :=
  let chunk := bytes.drop s.offset
  let n := results s.file.returned.length
  let file := { s.file with returned := s.file.returned ++ [n] }
  match n with
  | .count (n + 1) =>
    { s with
      file := { file with contents := file.contents ++ chunk.take (n + 1) }
      offset := s.offset + min (n + 1) chunk.length }
  | .interrupted => { s with file }
  | .count 0 | .error _ => { s with file := { file with reports := file.reports + 1 }, failed := true }

def appendBytes (results : Nat → WriteReturn) (fuel : Nat) (bytes : Bytes) (f : AppendFile) : Option AppendFile :=
  if bytes.isEmpty || !f.isOpen then some f
  else
    (whileLoop (goesOn bytes) (writeChunk results bytes) fuel { file := f }).map fun s =>
      if s.failed then s.file else { s.file with writtenBytes := s.file.writtenBytes + bytes.length }

/-- What `appendBytes` comes to if no call of `write` fails. -/
def appendWhole (bytes : Bytes) (f : AppendFile) : AppendFile :=
  { f with writtenBytes := f.writtenBytes + bytes.length, contents := f.contents ++ bytes }

/-- Calls of `append`, one after the other. -/
def append (results : Nat → WriteReturn) (fuel : Nat) : List Bytes → AppendFile → Option AppendFile
  | [], f => some f
  | line :: lines, f => (f.appendBytes results fuel line).bind (append results fuel lines)

end AppendFile
end Muduo
