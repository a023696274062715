import Muduo.Lib.BigEndian
import Muduo.Lib.Slice

/-! # Buffers

`Buffer` keeps its readable bytes between two indices of a vector. The structure carries the order of the
indices, so every operation that builds a buffer proves it; what an operation does to the readable bytes is
the lemma that follows it. -/

namespace Muduo
open Lib

abbrev Bytes := List UInt8

def Buffer.kCheapPrepend : Nat := 8

structure Buffer where
  buffer : Bytes
  readerIndex : Nat
  writerIndex : Nat
  reader_le : readerIndex ≤ writerIndex
  writer_le : writerIndex ≤ buffer.length
  /-- The room that `retrieveAll` leaves in front. -/
  prepend_le : Buffer.kCheapPrepend ≤ buffer.length

namespace Buffer

def kInitialSize : Nat := 1024

def new (initialSize : Nat) : Buffer where
  buffer := List.replicate (kCheapPrepend + initialSize) 0
  readerIndex := kCheapPrepend
  writerIndex := kCheapPrepend
  reader_le := Nat.le_refl _
  writer_le := by simp
  prepend_le := by simp

variable (b : Buffer)

def readableBytes : Nat := b.writerIndex - b.readerIndex

def writableBytes : Nat := b.buffer.length - b.writerIndex

def prependableBytes : Nat := b.readerIndex

def readableSpan : Bytes := slice b.buffer b.readerIndex b.writerIndex

def retrieveAll : Buffer :=
  { b with
    readerIndex := kCheapPrepend
    writerIndex := kCheapPrepend
    reader_le := Nat.le_refl _
    writer_le := b.prepend_le }

def retrieve (len : Nat) : Buffer :=
  if h : len < b.readableBytes then
    { b with
      readerIndex := b.readerIndex + len
      reader_le := by
        unfold readableBytes at h
        omega }
  else b.retrieveAll

/-- `makeSpace` when the free bytes do not suffice: the vector grows. -/
def grow (len : Nat) : Buffer :=
  { b with
    buffer := b.buffer ++ List.replicate (b.writerIndex + len - b.buffer.length) 0
    writer_le := by
      rw [List.length_append]
      exact Nat.le_trans b.writer_le (Nat.le_add_right _ _)
    prepend_le := by
      rw [List.length_append]
      exact Nat.le_trans b.prepend_le (Nat.le_add_right _ _) }

@[simp] theorem length_readableSpan : b.readableSpan.length = b.readableBytes := length_slice b.writer_le

/-- `makeSpace` when they do: the readable bytes move to the front. -/
def moveToFront (h : kCheapPrepend ≤ b.readerIndex) : Buffer :=
  have hlen : kCheapPrepend + b.readableSpan.length ≤ b.buffer.length := by
    have := b.reader_le
    have := b.writer_le
    rw [length_readableSpan, readableBytes]
    omega
  { b with
    buffer := overwrite b.buffer kCheapPrepend b.readableSpan
    readerIndex := kCheapPrepend
    writerIndex := kCheapPrepend + b.readableBytes
    reader_le := Nat.le_add_right _ _
    writer_le := by rwa [length_overwrite hlen, ← length_readableSpan]
    prepend_le := by
      rw [length_overwrite hlen]
      exact b.prepend_le }

/-- `ensureWritableBytes` with `makeSpace`; its last assert is the property of the result. -/
def ensureWritableBytes (len : Nat) : { b' : Buffer // len ≤ b'.writableBytes } :=
  if h : b.writableBytes < len then
    if hroom : b.writableBytes + b.prependableBytes < len + kCheapPrepend then
      ⟨b.grow len, by
        have := b.writer_le
        simp only [grow, writableBytes, List.length_append, List.length_replicate]
        omega⟩
    else
      have hreader : kCheapPrepend ≤ b.readerIndex := by
        unfold prependableBytes at hroom
        omega
      ⟨b.moveToFront hreader, by
        have hlen : kCheapPrepend + b.readableSpan.length ≤ b.buffer.length := by
          have := b.reader_le
          have := b.writer_le
          rw [length_readableSpan, readableBytes]
          omega
        have := b.reader_le
        have := b.writer_le
        simp only [moveToFront, writableBytes, prependableBytes, readableBytes, length_overwrite hlen] at *
        omega⟩
  else ⟨b, Nat.le_of_not_lt h⟩

/-- The bytes are copied behind the readable ones, and `hasWritten`. -/
def write (data : Bytes) (h : data.length ≤ b.writableBytes) : Buffer :=
  have hlen : b.writerIndex + data.length ≤ b.buffer.length := by
    have := b.writer_le
    unfold writableBytes at h
    omega
  { b with
    buffer := overwrite b.buffer b.writerIndex data
    writerIndex := b.writerIndex + data.length
    reader_le := Nat.le_trans b.reader_le (Nat.le_add_right _ _)
    writer_le := by rwa [length_overwrite hlen]
    prepend_le := by
      rw [length_overwrite hlen]
      exact b.prepend_le }

def append (data : Bytes) : Buffer :=
  let b' := b.ensureWritableBytes data.length
  b'.val.write data b'.property

def unwrite (len : Nat) (h : len ≤ b.readableBytes) : Buffer :=
  { b with
    writerIndex := b.writerIndex - len
    reader_le := by
      have := b.reader_le
      unfold readableBytes at h
      omega
    writer_le := Nat.le_trans (Nat.sub_le _ _) b.writer_le }

def prepend (data : Bytes) (h : data.length ≤ b.prependableBytes) : Buffer :=
  have hlen : b.readerIndex - data.length + data.length ≤ b.buffer.length := by
    have := b.reader_le
    have := b.writer_le
    unfold prependableBytes at h
    omega
  { b with
    buffer := overwrite b.buffer (b.readerIndex - data.length) data
    readerIndex := b.readerIndex - data.length
    reader_le := Nat.le_trans (Nat.sub_le _ _) b.reader_le
    writer_le := by
      rw [length_overwrite hlen]
      exact b.writer_le
    prepend_le := by
      rw [length_overwrite hlen]
      exact b.prepend_le }

def shrink (reserve : Nat) : Buffer :=
  ((new kInitialSize).ensureWritableBytes (b.readableBytes + reserve)).val.append b.readableSpan

def extraBufferSize : Nat := 65536

def readCapacity : Nat :=
  if b.writableBytes < extraBufferSize then b.writableBytes + extraBufferSize else b.writableBytes

/-- `readFd` when `readv` delivers `data`: what does not fit is appended from the second vector. -/
def readFd (data : Bytes) : Buffer :=
  let first := b.write (data.take b.writableBytes) (List.length_take_le _ _)
  if data.length ≤ b.writableBytes then first else first.append (data.drop b.writableBytes)

/-- An `int32_t` behind the readable bytes, in network byte order. -/
def appendInt32 (x : BitVec 32) : Buffer := b.append (bigEndian 4 x.toNat)

/-- `peekInt32`; like the `memcpy` in it, it does not look at `writerIndex_`. -/
def peekInt32 : BitVec 32 := .ofNat 32 (ofBigEndian (slice b.buffer b.readerIndex (b.readerIndex + 4)))

/-- `readableSpan().subspan(offset, count)` -/
def subspan (offset count : Nat) : Bytes := slice b.buffer (b.readerIndex + offset) (b.readerIndex + offset + count)

/-! ## The readable bytes -/

variable {b}

theorem writerIndex_add_le {n : Nat} (h : n ≤ b.writableBytes) : b.writerIndex + n ≤ b.buffer.length := by
  have := b.writer_le
  unfold writableBytes at h
  omega

@[simp] theorem readableSpan_new {n : Nat} : (new n).readableSpan = [] := slice_self

@[simp] theorem readableSpan_retrieveAll : b.retrieveAll.readableSpan = [] := slice_self

theorem readableBytes_eq_zero : b.readableBytes = 0 ↔ b.readableSpan = [] := by
  rw [← length_readableSpan, List.length_eq_zero_iff]

@[simp] theorem readableSpan_retrieve {len : Nat} : (b.retrieve len).readableSpan = b.readableSpan.drop len := by
  unfold retrieve
  split
  · exact drop_slice.symm
  · rw [readableSpan_retrieveAll, List.drop_eq_nil_of_le]
    rw [length_readableSpan]
    omega

theorem readableSpan_grow {len : Nat} : (b.grow len).readableSpan = b.readableSpan := slice_append_right b.writer_le

theorem readableSpan_moveToFront (h : kCheapPrepend ≤ b.readerIndex) :
    (b.moveToFront h).readableSpan = b.readableSpan := by
  have hslice := slice_overwrite (d := b.readableSpan) b.prepend_le
  rw [length_readableSpan] at hslice
  exact hslice

theorem readableSpan_ensureWritableBytes {len : Nat} :
    (b.ensureWritableBytes len).val.readableSpan = b.readableSpan := by
  unfold ensureWritableBytes
  split
  · split
    · exact readableSpan_grow
    · rename_i hroom
      exact readableSpan_moveToFront (by unfold prependableBytes at hroom; omega)
  · rfl

theorem readableSpan_write {data : Bytes} (h : data.length ≤ b.writableBytes) :
    (b.write data h).readableSpan = b.readableSpan ++ data := by
  have hslice : slice (overwrite b.buffer b.writerIndex data) b.readerIndex b.writerIndex = b.readableSpan :=
    slice_overwrite_of_le (Nat.le_refl _) b.writer_le
  rw [readableSpan]
  simp only [write]
  rw [← slice_append_slice b.reader_le (Nat.le_add_right _ _), hslice, slice_overwrite b.writer_le]

@[simp] theorem readableSpan_append {data : Bytes} : (b.append data).readableSpan = b.readableSpan ++ data := by
  rw [append, readableSpan_write, readableSpan_ensureWritableBytes]

theorem readableSpan_unwrite {len : Nat} (h : len ≤ b.readableBytes) :
    (b.unwrite len h).readableSpan = b.readableSpan.take (b.readableSpan.length - len) := by
  rw [length_readableSpan, readableSpan, readableSpan, readableBytes, take_slice]
  congr 1
  simp only [unwrite]
  unfold readableBytes at h
  have := b.reader_le
  omega

theorem readableSpan_prepend {data : Bytes} (h : data.length ≤ b.prependableBytes) :
    (b.prepend data h).readableSpan = data ++ b.readableSpan := by
  have hsplit : b.readerIndex - data.length + data.length = b.readerIndex := Nat.sub_add_cancel h
  have hle : b.readerIndex - data.length ≤ b.buffer.length :=
    Nat.le_trans (Nat.sub_le _ _) (Nat.le_trans b.reader_le b.writer_le)
  have hfront := slice_overwrite (d := data) hle
  have hback := slice_overwrite_of_ge (d := data) (j := b.writerIndex) (Nat.le_of_eq hsplit)
    (by rw [hsplit]; exact Nat.le_trans b.reader_le b.writer_le)
  rw [hsplit] at hfront
  rw [readableSpan]
  simp only [prepend]
  rw [← slice_append_slice (Nat.sub_le _ _) b.reader_le, hfront, hback, readableSpan]

@[simp] theorem readableSpan_shrink {reserve : Nat} : (b.shrink reserve).readableSpan = b.readableSpan := by
  rw [shrink, readableSpan_append, readableSpan_ensureWritableBytes, readableSpan_new, List.nil_append]

/-- What is read goes behind what was there, wherever it was put. -/
@[simp] theorem readableSpan_readFd {data : Bytes} : (b.readFd data).readableSpan = b.readableSpan ++ data := by
  unfold readFd
  split
  · rename_i h
    rw [readableSpan_write, List.take_of_length_le h]
  · rw [readableSpan_append, readableSpan_write, List.append_assoc, List.take_append_drop]

theorem readableBytes_retrieve {len : Nat} : (b.retrieve len).readableBytes = b.readableBytes - len := by
  rw [← length_readableSpan, readableSpan_retrieve, List.length_drop, length_readableSpan]

/-! ## What is read through pointers -/

theorem subspan_eq (offset : Nat) {count : Nat} (h : offset + count ≤ b.readableBytes) :
    b.subspan offset count = slice b.readableSpan offset (offset + count) := by
  have hend : b.readerIndex + (offset + count) ≤ b.writerIndex := by
    have := b.reader_le
    unfold readableBytes at h
    omega
  rw [subspan, readableSpan, slice_slice (Nat.le_add_right _ _) hend, Nat.add_assoc]

theorem peekInt32_eq (h : 4 ≤ b.readableBytes) : b.peekInt32 = .ofNat 32 (ofBigEndian (b.readableSpan.take 4)) := by
  have hspan : slice b.buffer b.readerIndex (b.readerIndex + 4) = b.readableSpan.take 4 :=
    subspan_eq 0 (by omega)
  rw [peekInt32, hspan]

/-! ## The room in front -/

theorem le_prependableBytes_ensureWritableBytes {n len : Nat} (hn : n ≤ kCheapPrepend) (h : n ≤ b.prependableBytes) :
    n ≤ (b.ensureWritableBytes len).val.prependableBytes := by
  unfold ensureWritableBytes
  split
  · split
    · exact h
    · exact hn
  · exact h

theorem le_prependableBytes_append {n : Nat} {data : Bytes} (hn : n ≤ kCheapPrepend) (h : n ≤ b.prependableBytes) :
    n ≤ (b.append data).prependableBytes := by
  rw [append]
  exact le_prependableBytes_ensureWritableBytes hn h

end Buffer
end Muduo
