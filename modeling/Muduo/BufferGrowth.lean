import Mathlib.Algebra.Group.Nat.Defs
import Muduo.RawBuffer

/-! # Buffers of any size

The functions of `Buffer.h` and `Buffer.cc` that make room, with the arithmetic of `size_t`: sums and differences are
taken modulo 2^64. `std::vector::resize` finds memory for the size or throws and changes nothing; which it does is a
parameter. The functions that make no room are those of `RawBuffer`, whose sizes are ones the buffer has already. -/

namespace Muduo
open Lib

namespace SizeT

def add (x y : Nat) : Nat := (x + y) % 2 ^ 64

def sub (x y : Nat) : Nat := (x + (2 ^ 64 - y)) % 2 ^ 64

end SizeT

/-- How a call ends that may make room. -/
structure Grown where
  buffer : RawBuffer
  /-- `std::vector::resize` threw, and nothing behind it was run. -/
  threw : Bool := false
  deriving DecidableEq

namespace WordBuffer
open Buffer (kCheapPrepend kInitialSize)

def readableBytes (r : RawBuffer) : Nat := SizeT.sub r.writerIndex r.readerIndex

def writableBytes (r : RawBuffer) : Nat := SizeT.sub r.buffer.length r.writerIndex

def prependableBytes (r : RawBuffer) : Nat := r.readerIndex

def readableSpan (r : RawBuffer) : Bytes := slice r.buffer r.readerIndex (r.readerIndex + readableBytes r)

def new (initialSize : Nat) : RawBuffer :=
  let r : RawBuffer := ⟨List.replicate (SizeT.add kCheapPrepend initialSize) 0, kCheapPrepend, kCheapPrepend, []⟩
  let r := r.check .newReadable (readableBytes r = 0)
  let r := r.check .newWritable (writableBytes r = initialSize)
  r.check .newPrependable (prependableBytes r = kCheapPrepend)

/-- The test of `makeSpace`. -/
def tooSmall (len : Nat) (r : RawBuffer) : Bool :=
  SizeT.add (writableBytes r) (prependableBytes r) < SizeT.add len kCheapPrepend

section
variable (alloc : Nat → Bool)

def makeSpace (len : Nat) (r : RawBuffer) : Grown :=
  if tooSmall len r then
    let size := SizeT.add r.writerIndex len
    if alloc size then { buffer := { r with buffer := RawBuffer.resize r.buffer size } }
    else { buffer := r, threw := true }
  else
    let r := r.check .makeSpaceReader (kCheapPrepend < r.readerIndex)
    let readable := readableBytes r
    let r :=
      { r with
        buffer := overwrite r.buffer kCheapPrepend (slice r.buffer r.readerIndex (r.readerIndex + readable))
        readerIndex := kCheapPrepend
        writerIndex := SizeT.add kCheapPrepend readable }
    { buffer := r.check .makeSpaceReadable (readable = readableBytes r) }

def ensureWritableBytes (len : Nat) (r : RawBuffer) : Grown :=
  let g := if writableBytes r < len then makeSpace alloc len r else { buffer := r }
  if g.threw then g
  else { g with buffer := g.buffer.check .ensureWritableBytes (len ≤ writableBytes g.buffer) }

def hasWritten (len : Nat) (r : RawBuffer) : RawBuffer :=
  let r := r.check .hasWritten (len ≤ writableBytes r)
  { r with writerIndex := SizeT.add r.writerIndex len }

def append (data : Bytes) (r : RawBuffer) : Grown :=
  let g := ensureWritableBytes alloc data.length r
  if g.threw then g else { g with buffer := hasWritten data.length (g.buffer.fill data) }

/-- `shrink`; memory is needed for the other buffer, for its room and for the copy. -/
def shrink (reserve : Nat) (r : RawBuffer) : Grown :=
  if alloc (SizeT.add kCheapPrepend kInitialSize) then
    let other := ensureWritableBytes alloc (SizeT.add (readableBytes r) reserve) (new kInitialSize)
    if other.threw then { buffer := r, threw := true }
    else
      let other := append alloc (readableSpan r) other.buffer
      if other.threw then { buffer := r, threw := true }
      else { buffer := { other.buffer with failed := other.buffer.failed ++ r.failed } }
  else { buffer := r, threw := true }

/-- `readFd`; if there is no room for what went to the second vector, the writable part has been filled. -/
def readFd (result : Option Bytes) (r : RawBuffer) : Grown :=
  match result with
  | none => { buffer := r }
  | some data =>
    let filled := r.fill (data.take (writableBytes r))
    if data.length ≤ writableBytes r then
      { buffer := { filled with writerIndex := SizeT.add filled.writerIndex data.length } }
    else append alloc (data.drop (writableBytes r)) { filled with writerIndex := filled.buffer.length }

end

/-! ## Any number of buffers -/

variable {ι : Type} [DecidableEq ι]

def perform (s : RawBuffers ι) (alloc : Nat → Bool) : BufferOp ι → RawBuffers ι
  | .append i data => s.on i fun r => (append alloc data r).buffer
  | .ensureWritableBytes i len => s.on i fun r => (ensureWritableBytes alloc len r).buffer
  | .shrink i reserve => s.on i fun r => (shrink alloc reserve r).buffer
  | .readFd i result => s.on i fun r => (readFd alloc result r).buffer
  | op => s.perform op

/-- Each call comes with the sizes for which there is memory then. -/
def system : Stepper (RawBuffers ι) ((Nat → Bool) × BufferOp ι) := ⟨fun s e => some (perform s e.1 e.2)⟩

end WordBuffer
end Muduo
