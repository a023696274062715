import Mathlib.Algebra.Group.Nat.Defs
import Muduo.Lib.While
import Muduo.RawBuffer

/-! # Compressed streams

`ZlibInputStream` and `ZlibOutputStream` hand their input to zlib piece by piece and let it write into the free space of a
`Buffer`. zlib itself is a parameter: what `inflate` or `deflate` does with a state, some input and some space. -/

namespace Muduo
open Lib

/-- The return codes of zlib. -/
inductive ZStatus where
  | ok
  | streamEnd
  | needDict
  | errno
  | streamError
  | dataError
  | memError
  | bufError
  | versionError
  deriving DecidableEq

/-- `Z_NO_FLUSH` and `Z_FINISH`. -/
inductive ZFlush where
  | noFlush
  | finish
  deriving DecidableEq

/-- What one call of `inflate` or `deflate` does. -/
structure ZResult (σ : Type) where
  status : ZStatus
  /-- By how many bytes it advances `next_in`. -/
  consumed : Nat
  /-- What it writes at `next_out`. -/
  produced : Bytes
  state : σ

/-- `inflate` or `deflate`, with the functions that begin and end a stream. It uses no more input and no more space than it is
given. -/
structure Zlib (σ : Type) where
  /-- `inflateInit` or `deflateInit` -/
  init : ZStatus × σ
  run : ZFlush → Bytes → Nat → σ → ZResult σ
  /-- `inflateEnd` or `deflateEnd` -/
  finalize : σ → ZStatus
  consumed_le : ∀ {flush input availOut s}, (run flush input availOut s).consumed ≤ input.length
  produced_le : ∀ {flush input availOut s}, (run flush input availOut s).produced.length ≤ availOut

/-- The conversion to `uInt`. -/
def uInt (n : Nat) : Nat := n % 2 ^ 32

/-- The members of `ZlibInputStream` and of `ZlibOutputStream`. -/
structure ZlibStream (σ : Type) where
  output : RawBuffer
  /-- The `avail_in` bytes at `next_in`. -/
  nextIn : Bytes := []
  /-- The rest of `zstream_`. -/
  zstream : σ
  zerror : ZStatus
  bufferSize : Nat := 1024
  finished : Bool := false
  /-- What the calls of `inflate` or `deflate` returned, newest first. -/
  returned : List (ZFlush × ZStatus) := []
  /-- How often `inflateEnd` or `deflateEnd` was called. -/
  ends : Nat := 0

/-- What a `write` is given. -/
inductive ZlibInput where
  | string (data : Bytes)
  | buffer (input : Buffer)

def ZlibInput.bytes : ZlibInput → Bytes
  | .string data => data
  | .buffer input => input.readableSpan

/-- Afterwards, `availIn` bytes were not used. -/
def ZlibInput.retrieve (availIn : Nat) : ZlibInput → ZlibInput
  | .string data => .string data
  | .buffer input => .buffer (input.retrieve (input.readableBytes - availIn))

namespace ZlibStream
variable {σ : Type}

def new (z : Zlib σ) (output : RawBuffer) : ZlibStream σ := { output, zstream := z.init.2, zerror := z.init.1 }

/-- What `decompress` and `compress` do; their result is assigned to `zerror_` in each case. -/
def transfer (z : Zlib σ) (flush : ZFlush) (s : ZlibStream σ) : ZlibStream σ :=
  let output := s.output.ensureWritableBytes s.bufferSize
  let size := output.writableBytes
  let availOut := uInt size
  let r := z.run flush s.nextIn availOut s.zstream
  let output := (output.fill r.produced).hasWritten (size - (availOut - r.produced.length))
  { s with
    output
    nextIn := s.nextIn.drop r.consumed
    zstream := r.state
    zerror := r.status
    bufferSize := if output.writableBytes = 0 ∧ s.bufferSize < 65536 then s.bufferSize * 2 else s.bufferSize
    returned := (flush, r.status) :: s.returned }

/-- `next_in` and `avail_in` are set. -/
def setInput (data : Bytes) (s : ZlibStream σ) : ZlibStream σ := { s with nextIn := data.take (uInt data.length) }

/-- The condition of the loop in `write`. -/
def goesOn (s : ZlibStream σ) : Bool := s.nextIn ≠ [] ∧ s.zerror = .ok

/-- `write` of either stream, in both forms: `close` is what it does after the loop. -/
def writeWith (step : ZFlush → ZlibStream σ → ZlibStream σ) (close : ZlibStream σ → ZlibStream σ) (fuel : Nat)
    (input : ZlibInput) (s : ZlibStream σ) : Option (Bool × ZlibInput × ZlibStream σ) :=
  if s.finished ∨ s.zerror ≠ .ok then some (false, input, s)
  else
    (whileLoop goesOn (step .noFlush) fuel (s.setInput input.bytes)).map fun s =>
      (((close s).zerror = .ok : Bool), input.retrieve s.nextIn.length, close s)

/-- One `write` after the other, with what each returns and leaves of its input. -/
def writeAll (write : ZlibInput → ZlibStream σ → Option (Bool × ZlibInput × ZlibStream σ)) :
    List ZlibInput → ZlibStream σ → Option (List (Bool × ZlibInput) × ZlibStream σ)
  | [], s => some ([], s)
  | input :: inputs, s =>
    (write input s).bind fun (ok, left, s) =>
      (writeAll write inputs s).map fun (results, s) => ((ok, left) :: results, s)

/-- The loop in `finish`. -/
def flushAll (step : ZFlush → ZlibStream σ → ZlibStream σ) (fuel : Nat) (s : ZlibStream σ) : Option (ZlibStream σ) :=
  whileLoop (fun s => s.zerror = .ok) (step .finish) fuel s

end ZlibStream

/-- What the user of a stream does. -/
inductive ZlibCall where
  | write (input : ZlibInput)
  | finish
  /-- The output buffer is used in some way. -/
  | useOutput (output : RawBuffer)

def ZlibCall.perform {σ : Type} (write : ZlibInput → ZlibStream σ → Option (Bool × ZlibInput × ZlibStream σ))
    (finish : ZlibStream σ → Option (Bool × ZlibStream σ)) (s : ZlibStream σ) : ZlibCall → Option (ZlibStream σ)
  | .write input => (write input s).map (·.2.2)
  | .finish => (finish s).map (·.2)
  | .useOutput output => some { s with output }

namespace ZlibInputStream
variable {σ : Type}
open ZlibStream

def decompress (z : Zlib σ) (flush : ZFlush) (s : ZlibStream σ) : ZlibStream σ := s.transfer z flush

/-- What `write` does after its loop: the end of the stream is not an error. -/
def markEnd (s : ZlibStream σ) : ZlibStream σ :=
  if s.zerror = .streamEnd then { s with finished := true, zerror := .ok } else s

def write (z : Zlib σ) (fuel : Nat) (input : ZlibInput) (s : ZlibStream σ) :
    Option (Bool × ZlibInput × ZlibStream σ) := writeWith (decompress z) markEnd fuel input s

def finish (z : Zlib σ) (fuel : Nat) (s : ZlibStream σ) : Option (Bool × ZlibStream σ) :=
  if s.finished then some (true, s)
  else if s.zerror ≠ .ok ∧ s.zerror ≠ .streamEnd then some (false, s)
  else
    (flushAll (decompress z) fuel s).map fun s =>
      let ok : Bool := s.zerror = .streamEnd ∨ s.zerror = .bufError
      let endError := z.finalize s.zstream
      (ok && endError = .ok,
        { s with
          finished := true
          zerror := if ok ∧ endError = .ok then .streamEnd else endError
          ends := s.ends + 1 })

/-- A stream from its constructor to its destructor, which calls `finish`. -/
def lifetime (z : Zlib σ) (fuel : Nat) (output : RawBuffer) (calls : List ZlibCall) : Option (ZlibStream σ) :=
  (calls ++ [ZlibCall.finish]).foldlM (ZlibCall.perform (write z fuel) (finish z fuel)) (new z output)

end ZlibInputStream

namespace ZlibOutputStream
variable {σ : Type}
open ZlibStream

def compress (z : Zlib σ) (flush : ZFlush) (s : ZlibStream σ) : ZlibStream σ := s.transfer z flush

def write (z : Zlib σ) (fuel : Nat) (input : ZlibInput) (s : ZlibStream σ) :
    Option (Bool × ZlibInput × ZlibStream σ) := writeWith (compress z) id fuel input s

def finish (z : Zlib σ) (fuel : Nat) (s : ZlibStream σ) : Option (Bool × ZlibStream σ) :=
  if s.finished then some (true, s)
  else if s.zerror ≠ .ok then some (false, s)
  else
    (flushAll (compress z) fuel s).map fun s =>
      let endError := z.finalize s.zstream
      let ok : Bool := s.zerror = .streamEnd ∧ endError = .ok
      (ok,
        { s with
          finished := true
          zerror := if ok then .streamEnd else if endError ≠ .ok then endError else s.zerror
          ends := s.ends + 1 })

/-- A stream from its constructor to its destructor, which calls `finish`. -/
def lifetime (z : Zlib σ) (fuel : Nat) (output : RawBuffer) (calls : List ZlibCall) : Option (ZlibStream σ) :=
  (calls ++ [ZlibCall.finish]).foldlM (ZlibCall.perform (write z fuel) (finish z fuel)) (new z output)

end ZlibOutputStream
end Muduo
