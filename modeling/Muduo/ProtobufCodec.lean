import Mathlib.Algebra.Group.Nat.Defs
import Muduo.Buffer
import Muduo.Lib.Incremental

/-! # Protobuf messages in frames

`ProtobufCodecLite`: a frame is a length, the tag, the serialized message and a checksum of the two. What protobuf
does is given with the codec: how a message is serialized and what `ParseFromArray` makes of some bytes. -/

namespace Muduo
open Lib

/-- `adler32` of zlib, from 1 on. -/
def adler32 (bytes : Bytes) : Nat :=
  let sums := bytes.foldl (fun (s : Nat × Nat) x =>
    let low := (s.1 + x.toNat) % 65521
    (low, (s.2 + low) % 65521)) (1, 0)
  sums.2 * 65536 + sums.1

namespace ProtobufCodec

def kHeaderLen : Nat := 4

def kChecksumLen : Nat := 4

def kMaxMessageLen : Nat := 64 * 1024 * 1024

inductive ErrorCode where
  | kNoError
  | kInvalidLength
  | kCheckSumError
  | kInvalidNameLen
  | kUnknownMessageType
  | kParseError
  deriving DecidableEq

def asInt32 (bytes : Bytes) : BitVec 32 := .ofNat 32 (ofBigEndian (bytes.take 4))

def checksum (bytes : Bytes) : BitVec 32 := .ofNat 32 (adler32 bytes)

def validateChecksum (bytes : Bytes) : Bool :=
  if bytes.length < kChecksumLen then false
  else
    let expectedCheckSum := asInt32 (bytes.drop (bytes.length - kChecksumLen))
    checksum (bytes.take (bytes.length - kChecksumLen)) = expectedCheckSum

end ProtobufCodec

open ProtobufCodec

/-- A codec with the two sides of protobuf it uses. -/
structure ProtobufCodec (M : Type) where
  tag : Bytes
  serialize : M → Bytes
  parseFromArray : Bytes → Option M
  /-- Says whether a frame is to be parsed at all. -/
  rawCb : Option (Bytes → Bool) := none
  /-- The sums of lengths that the source computes in `int` do not overflow. -/
  tag_fits : tag.length + kChecksumLen + kHeaderLen < 2 ^ 31
  /-- Protobuf serializes no message of 2 GiB. -/
  size_fits (m : M) : (serialize m).length + kChecksumLen < 2 ^ 31

/-- What the callbacks of a codec are called with. -/
inductive CodecEvent (M : Type) where
  | message (m : M)
  | error (code : ErrorCode)

/-- The input of a connection, and the callbacks made for it, newest first. -/
structure CodecState (M : Type) where
  buf : Buffer
  events : List (CodecEvent M) := []

namespace ProtobufCodec
variable {M : Type} (c : ProtobufCodec M)

def kMinMessageLen : Nat := c.tag.length + kChecksumLen

/-! ## Sending -/

def serializeToBuffer (m : M) (buf : Buffer) : Buffer :=
  let room := buf.ensureWritableBytes ((c.serialize m).length + kChecksumLen)
  room.val.write (c.serialize m) (Nat.le_trans (Nat.le_add_right _ _) room.property)

/-- The bytes of a frame behind its length. -/
def fillBody (m : M) (buf : Buffer) : Buffer :=
  let buf := c.serializeToBuffer m (buf.append c.tag)
  buf.appendInt32 (checksum buf.readableSpan)

theorem le_prependableBytes_fillBody {m : M} {buf : Buffer} (h : kHeaderLen ≤ buf.prependableBytes) :
    kHeaderLen ≤ (c.fillBody m buf).prependableBytes := by
  have hcheap : kHeaderLen ≤ Buffer.kCheapPrepend := by decide
  refine Buffer.le_prependableBytes_append hcheap ?_
  exact Buffer.le_prependableBytes_ensureWritableBytes hcheap (Buffer.le_prependableBytes_append hcheap h)

def fillEmptyBuffer (m : M) (buf : Buffer) (h : kHeaderLen ≤ buf.prependableBytes) : Buffer :=
  let body := c.fillBody m buf
  body.prepend (bigEndian 4 body.readableBytes) (by
    rw [length_bigEndian]
    exact c.le_prependableBytes_fillBody h)

/-! ## Receiving -/

def parse (bytes : Bytes) : Except ErrorCode M :=
  if !validateChecksum bytes then .error .kCheckSumError
  else if bytes.length < c.tag.length + kChecksumLen ∨ bytes.take c.tag.length ≠ c.tag then
    .error .kUnknownMessageType
  else
    match c.parseFromArray (slice bytes c.tag.length (bytes.length - kChecksumLen)) with
    | some m => .ok m
    | none => .error .kParseError

/-- The raw callback says that the frame is not to be parsed. -/
def drops (frame : Bytes) : Bool :=
  match c.rawCb with
  | none => false
  | some cb => !cb frame

/-- A call of `onMessage`: as many frames as there are. -/
def onMessage (s : CodecState M) : CodecState M :=
  if c.kMinMessageLen + kHeaderLen ≤ s.buf.readableBytes then
    let len := s.buf.peekInt32.toInt
    if (kMaxMessageLen : Int) < len ∨ len < c.kMinMessageLen then
      { s with events := .error .kInvalidLength :: s.events }
    else
      let frameLen := kHeaderLen + len.toNat
      if s.buf.readableBytes < frameLen then s
      else if c.drops (s.buf.subspan 0 frameLen) then onMessage { s with buf := s.buf.retrieve frameLen }
      else
        match c.parse (s.buf.subspan kHeaderLen len.toNat) with
        | .ok m => onMessage { s with buf := s.buf.retrieve frameLen, events := .message m :: s.events }
        | .error code => { s with events := .error code :: s.events }
  else s
termination_by s.buf.readableBytes
decreasing_by all_goals (simp only [Buffer.readableBytes_retrieve, kHeaderLen] at *; omega)

/-- More bytes arrive, and `onMessage` is called. -/
def receive (s : CodecState M) (chunk : Bytes) : CodecState M :=
  c.onMessage { s with buf := s.buf.append chunk }

end ProtobufCodec
end Muduo
