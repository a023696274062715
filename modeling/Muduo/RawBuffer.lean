import Muduo.Buffer
import Muduo.Lib.Stepper

/-! # Buffers with their asserts

The functions of `Buffer.h` and `Buffer.cc` on a vector and two plain indices, with each assert where the source
has it. An assert that fails is recorded and the code goes on, as it does in a build without asserts. Sizes are far
below those at which the arithmetic of `size_t` wraps. -/

namespace Muduo
open Lib

/-- The asserts of the modelled functions, in the order of the source. -/
inductive BufferAssert where
  | newReadable
  | newWritable
  | newPrependable
  | retrieve
  | retrieveUntilPeek
  | retrieveUntilWrite
  | retrieveAsString
  | ensureWritableBytes
  | hasWritten
  | unwrite
  /-- Of `peekInt8`, `peekInt16`, `peekInt32` or `peekInt64`, by `sizeof`. -/
  | peekInt (size : Nat)
  | prepend
  | makeSpaceReader
  | makeSpaceReadable
  deriving DecidableEq

structure RawBuffer where
  buffer : Bytes
  readerIndex : Nat
  writerIndex : Nat
  failed : List BufferAssert := []
  deriving DecidableEq

namespace RawBuffer
open Buffer (kCheapPrepend kInitialSize extraBufferSize)

def check (a : BufferAssert) (holds : Bool) (r : RawBuffer) : RawBuffer :=
  if holds then r else { r with failed := a :: r.failed }

def readableBytes (r : RawBuffer) : Nat := r.writerIndex - r.readerIndex

def writableBytes (r : RawBuffer) : Nat := r.buffer.length - r.writerIndex

def prependableBytes (r : RawBuffer) : Nat := r.readerIndex

def readableSpan (r : RawBuffer) : Bytes := slice r.buffer r.readerIndex (r.readerIndex + r.readableBytes)

def new (initialSize : Nat) : RawBuffer :=
  let r : RawBuffer := ⟨List.replicate (kCheapPrepend + initialSize) 0, kCheapPrepend, kCheapPrepend, []⟩
  let r := r.check .newReadable (r.readableBytes = 0)
  let r := r.check .newWritable (r.writableBytes = initialSize)
  r.check .newPrependable (r.prependableBytes = kCheapPrepend)

def retrieveAll (r : RawBuffer) : RawBuffer := { r with readerIndex := kCheapPrepend, writerIndex := kCheapPrepend }

def retrieve (len : Nat) (r : RawBuffer) : RawBuffer :=
  let r := r.check .retrieve (len ≤ r.readableBytes)
  if len < r.readableBytes then { r with readerIndex := r.readerIndex + len } else r.retrieveAll

/-- `end` is the index of the byte that the pointer points to. -/
def retrieveUntil (endIndex : Nat) (r : RawBuffer) : RawBuffer :=
  let r := r.check .retrieveUntilPeek (r.readerIndex ≤ endIndex)
  let r := r.check .retrieveUntilWrite (endIndex ≤ r.writerIndex)
  r.retrieve (endIndex - r.readerIndex)

def retrieveAsString (len : Nat) (r : RawBuffer) : Bytes × RawBuffer :=
  let r := r.check .retrieveAsString (len ≤ r.readableBytes)
  (slice r.buffer r.readerIndex (r.readerIndex + len), r.retrieve len)

/-- `std::vector::resize` -/
def resize (l : Bytes) (n : Nat) : Bytes := l.take n ++ List.replicate (n - l.length) 0

def makeSpace (len : Nat) (r : RawBuffer) : RawBuffer :=
  if r.writableBytes + r.prependableBytes < len + kCheapPrepend then
    { r with buffer := resize r.buffer (r.writerIndex + len) }
  else
    let r := r.check .makeSpaceReader (kCheapPrepend < r.readerIndex)
    let readable := r.readableBytes
    let r :=
      { r with
        buffer := overwrite r.buffer kCheapPrepend (slice r.buffer r.readerIndex (r.readerIndex + readable))
        readerIndex := kCheapPrepend
        writerIndex := kCheapPrepend + readable }
    r.check .makeSpaceReadable (readable = r.readableBytes)

def ensureWritableBytes (len : Nat) (r : RawBuffer) : RawBuffer :=
  let r := if r.writableBytes < len then r.makeSpace len else r
  r.check .ensureWritableBytes (len ≤ r.writableBytes)

/-- Bytes are written at the start of `writableSpan`. -/
def fill (data : Bytes) (r : RawBuffer) : RawBuffer := { r with buffer := overwrite r.buffer r.writerIndex data }

def hasWritten (len : Nat) (r : RawBuffer) : RawBuffer :=
  let r := r.check .hasWritten (len ≤ r.writableBytes)
  { r with writerIndex := r.writerIndex + len }

def append (data : Bytes) (r : RawBuffer) : RawBuffer :=
  ((r.ensureWritableBytes data.length).fill data).hasWritten data.length

def unwrite (len : Nat) (r : RawBuffer) : RawBuffer :=
  let r := r.check .unwrite (len ≤ r.readableBytes)
  { r with writerIndex := r.writerIndex - len }

def prepend (data : Bytes) (r : RawBuffer) : RawBuffer :=
  let r := r.check .prepend (data.length ≤ r.prependableBytes)
  let r := { r with readerIndex := r.readerIndex - data.length }
  { r with buffer := overwrite r.buffer r.readerIndex data }

/-- `shrink`; the asserts that fail in the other buffer are kept too. -/
def shrink (reserve : Nat) (r : RawBuffer) : RawBuffer :=
  let other := (new kInitialSize).ensureWritableBytes (r.readableBytes + reserve)
  let other := other.append r.readableSpan
  { other with failed := other.failed ++ r.failed }

/-- How many bytes `readv` has room for. -/
def readCapacity (r : RawBuffer) : Nat :=
  if r.writableBytes < extraBufferSize then r.writableBytes + extraBufferSize else r.writableBytes

/-- `readFd`, with the bytes that `readv` delivers, or none if it fails. It fills the writable part first. -/
def readFd (result : Option Bytes) (r : RawBuffer) : RawBuffer :=
  match result with
  | none => r
  | some data =>
    let filled := r.fill (data.take r.writableBytes)
    if data.length ≤ r.writableBytes then { filled with writerIndex := filled.writerIndex + data.length }
    else ({ filled with writerIndex := filled.buffer.length }).append (data.drop r.writableBytes)

end RawBuffer

/-! ## Any number of buffers -/

/-- A call on one of the buffers `ι`; `swap` is between two. -/
inductive BufferOp (ι : Type) where
  | append (i : ι) (data : Bytes)
  | prepend (i : ι) (data : Bytes)
  | retrieve (i : ι) (len : Nat)
  /-- Until the byte `len` behind `peek()`. -/
  | retrieveUntil (i : ι) (len : Nat)
  | retrieveAsString (i : ι) (len : Nat)
  | retrieveAll (i : ι)
  | ensureWritableBytes (i : ι) (len : Nat)
  /-- `data` is written into `writableSpan`, and `hasWritten(len)` is called. -/
  | write (i : ι) (data : Bytes) (len : Nat)
  | unwrite (i : ι) (len : Nat)
  | shrink (i : ι) (reserve : Nat)
  | swap (i j : ι)
  | readFd (i : ι) (result : Option Bytes)

structure RawBuffers (ι : Type) where
  buffers : ι → RawBuffer
  /-- The strings that were returned, newest first. -/
  strings : List Bytes := []

namespace RawBuffers
variable {ι : Type} [DecidableEq ι]

/-- One of the buffers changes. -/
def on (i : ι) (f : RawBuffer → RawBuffer) (s : RawBuffers ι) : RawBuffers ι :=
  { s with buffers := fun j => if j = i then f (s.buffers i) else s.buffers j }

def perform (s : RawBuffers ι) : BufferOp ι → RawBuffers ι
  | .append i data => s.on i (RawBuffer.append data)
  | .prepend i data => s.on i (RawBuffer.prepend data)
  | .retrieve i len => s.on i (RawBuffer.retrieve len)
  | .retrieveUntil i len => s.on i fun r => r.retrieveUntil (r.readerIndex + len)
  | .retrieveAsString i len =>
    { s.on i fun r => (r.retrieveAsString len).2 with strings := ((s.buffers i).retrieveAsString len).1 :: s.strings }
  | .retrieveAll i => s.on i RawBuffer.retrieveAll
  | .ensureWritableBytes i len => s.on i (RawBuffer.ensureWritableBytes len)
  | .write i data len => s.on i fun r => (r.fill data).hasWritten len
  | .unwrite i len => s.on i (RawBuffer.unwrite len)
  | .shrink i reserve => s.on i (RawBuffer.shrink reserve)
  | .swap i j => { s with buffers := fun k => if k = i then s.buffers j else if k = j then s.buffers i else s.buffers k }
  | .readFd i result => s.on i (RawBuffer.readFd result)

def system : Stepper (RawBuffers ι) (BufferOp ι) := ⟨fun s op => some (s.perform op)⟩

end RawBuffers
end Muduo
