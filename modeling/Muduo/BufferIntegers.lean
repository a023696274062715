import Muduo.Endian
import Muduo.RawBuffer

/-! # Integers in a buffer

`appendIntN`, `peekIntN`, `readIntN` and `prependIntN` of `Buffer.h`. The three wider types convert to network byte
order and back and differ only in their size; an `int8_t` is a byte and is not converted. The casts between signed
and unsigned integers keep the bits. -/

namespace Muduo
open Lib

namespace RawBuffer
variable {w : Nat} (native : Endian) (size : Nat)

def appendInt (hostToNetwork : Endian → BitVec w → BitVec w) (x : BitVec w) (r : RawBuffer) : RawBuffer :=
  r.append (objectBytes native size (hostToNetwork native x))

def appendInt64 : BitVec 64 → RawBuffer → RawBuffer := appendInt native 8 hostToNetwork64

def appendInt32 : BitVec 32 → RawBuffer → RawBuffer := appendInt native 4 hostToNetwork32

def appendInt16 : BitVec 16 → RawBuffer → RawBuffer := appendInt native 2 hostToNetwork16

def appendInt8 (x : BitVec 8) (r : RawBuffer) : RawBuffer := r.append (objectBytes native 1 x)

/-- `memcpy` takes the bytes from the reader index on, wherever the writer index is. -/
def peekInt (networkToHost : Endian → BitVec w → BitVec w) (r : RawBuffer) : BitVec w × RawBuffer :=
  let r := r.check (.peekInt size) (size ≤ r.readableBytes)
  let be := ofObjectBytes native w (slice r.buffer r.readerIndex (r.readerIndex + size))
  (networkToHost native be, r)

def peekInt64 : RawBuffer → BitVec 64 × RawBuffer := peekInt native 8 networkToHost64

def peekInt32 : RawBuffer → BitVec 32 × RawBuffer := peekInt native 4 networkToHost32

def peekInt16 : RawBuffer → BitVec 16 × RawBuffer := peekInt native 2 networkToHost16

def peekInt8 (r : RawBuffer) : BitVec 8 × RawBuffer :=
  let r := r.check (.peekInt 1) (1 ≤ r.readableBytes)
  (ofObjectBytes native 8 (slice r.buffer r.readerIndex (r.readerIndex + 1)), r)

def readInt (peek : RawBuffer → BitVec w × RawBuffer) (r : RawBuffer) : BitVec w × RawBuffer :=
  let (result, r) := peek r
  (result, r.retrieve size)

def readInt64 : RawBuffer → BitVec 64 × RawBuffer := readInt 8 (peekInt64 native)

def readInt32 : RawBuffer → BitVec 32 × RawBuffer := readInt 4 (peekInt32 native)

def readInt16 : RawBuffer → BitVec 16 × RawBuffer := readInt 2 (peekInt16 native)

def readInt8 : RawBuffer → BitVec 8 × RawBuffer := readInt 1 (peekInt8 native)

def prependInt (hostToNetwork : Endian → BitVec w → BitVec w) (x : BitVec w) (r : RawBuffer) : RawBuffer :=
  r.prepend (objectBytes native size (hostToNetwork native x))

def prependInt64 : BitVec 64 → RawBuffer → RawBuffer := prependInt native 8 hostToNetwork64

def prependInt32 : BitVec 32 → RawBuffer → RawBuffer := prependInt native 4 hostToNetwork32

def prependInt16 : BitVec 16 → RawBuffer → RawBuffer := prependInt native 2 hostToNetwork16

def prependInt8 (x : BitVec 8) (r : RawBuffer) : RawBuffer := r.prepend (objectBytes native 1 x)

end RawBuffer

/-! ## Integers of any of the four types -/

inductive IntType where
  | int8
  | int16
  | int32
  | int64
  deriving DecidableEq

def IntType.size : IntType → Nat
  | int8 => 1
  | int16 => 2
  | int32 => 4
  | int64 => 8

inductive TypedInt where
  | int8 (x : BitVec 8)
  | int16 (x : BitVec 16)
  | int32 (x : BitVec 32)
  | int64 (x : BitVec 64)
  deriving DecidableEq

namespace TypedInt

def type : TypedInt → IntType
  | int8 _ => .int8
  | int16 _ => .int16
  | int32 _ => .int32
  | int64 _ => .int64

def toInt : TypedInt → Int
  | int8 x => x.toInt
  | int16 x => x.toInt
  | int32 x => x.toInt
  | int64 x => x.toInt

/-- What `appendIntN` and `prependIntN` put into the buffer. -/
def stored (native : Endian) : TypedInt → Bytes
  | int8 x => objectBytes native 1 x
  | int16 x => objectBytes native 2 (hostToNetwork16 native x)
  | int32 x => objectBytes native 4 (hostToNetwork32 native x)
  | int64 x => objectBytes native 8 (hostToNetwork64 native x)

/-- Two's complement, the most significant byte first. -/
def encoding (v : TypedInt) : Bytes := bigEndian v.type.size (v.toInt % 256 ^ v.type.size).toNat

end TypedInt

namespace RawBuffer
variable (native : Endian)

def appendTyped : TypedInt → RawBuffer → RawBuffer
  | .int8 x => appendInt8 native x
  | .int16 x => appendInt16 native x
  | .int32 x => appendInt32 native x
  | .int64 x => appendInt64 native x

def prependTyped : TypedInt → RawBuffer → RawBuffer
  | .int8 x => prependInt8 native x
  | .int16 x => prependInt16 native x
  | .int32 x => prependInt32 native x
  | .int64 x => prependInt64 native x

def readTyped (type : IntType) (r : RawBuffer) : TypedInt × RawBuffer :=
  match type with
  | .int8 => (r.readInt8 native).map .int8 id
  | .int16 => (r.readInt16 native).map .int16 id
  | .int32 => (r.readInt32 native).map .int32 id
  | .int64 => (r.readInt64 native).map .int64 id

def appendAll (values : List TypedInt) (r : RawBuffer) : RawBuffer := values.foldl (fun r v => r.appendTyped native v) r

/-- One value of each type is read, in this order. -/
def readAll : List IntType → RawBuffer → List TypedInt × RawBuffer
  | [], r => ([], r)
  | type :: types, r =>
    let (value, r) := r.readTyped native type
    let (values, r) := readAll types r
    (value :: values, r)

end RawBuffer
end Muduo
