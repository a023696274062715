import Muduo.RawBuffer

/-! # A buffer is a sequence of bytes

`Buffer.raw` takes a buffer with its invariant to one without. Each function of the source, on such a buffer and
with lengths in range, fails no assert and gives the buffer that the function on `Buffer` gives, so that every run
of the source is one of `Buffer`; what happens to the readable bytes is known from there. -/

namespace Muduo
open Lib

/-- The vector and the indices of a buffer, with no assert failed. -/
def Buffer.raw (b : Buffer) : RawBuffer := ⟨b.buffer, b.readerIndex, b.writerIndex, []⟩

namespace RawBuffer
open Buffer (kCheapPrepend)
variable {b : Buffer} {data : Bytes} {len : Nat} {r : RawBuffer} {a : BufferAssert}

/-! ## The functions of the source -/

theorem check_of {p : Prop} [Decidable p] (h : p) : r.check a (decide p) = r := by
  simp [check, h]

@[simp] theorem raw_readableBytes : b.raw.readableBytes = b.readableBytes := rfl

@[simp] theorem raw_writableBytes : b.raw.writableBytes = b.writableBytes := rfl

@[simp] theorem raw_prependableBytes : b.raw.prependableBytes = b.prependableBytes := rfl

@[simp] theorem raw_readableSpan : b.raw.readableSpan = b.readableSpan := by
  rw [readableSpan, raw_readableBytes, Buffer.readableSpan, Buffer.readableBytes]
  simp only [Buffer.raw, Nat.add_sub_cancel' b.reader_le]

theorem new_eq (n : Nat) : new n = (Buffer.new n).raw := by
  have hwritable : (List.replicate (kCheapPrepend + n) (0 : UInt8)).length - kCheapPrepend = n := by
    rw [List.length_replicate, Nat.add_sub_cancel_left]
  simp only [new, readableBytes, Nat.sub_self, check_of, writableBytes, hwritable, prependableBytes]
  rfl

theorem retrieveAll_raw : b.raw.retrieveAll = b.retrieveAll.raw := rfl

theorem retrieve_raw (h : len ≤ b.readableBytes) : b.raw.retrieve len = (b.retrieve len).raw := by
  have hcheck : b.raw.check .retrieve (len ≤ b.raw.readableBytes) = b.raw := check_of h
  simp only [retrieve, hcheck, Buffer.retrieve]
  by_cases hlt : len < b.readableBytes
  · rw [raw_readableBytes, if_pos hlt, dif_pos hlt]
    rfl
  · rw [raw_readableBytes, if_neg hlt, dif_neg hlt]
    rfl

theorem retrieveUntil_raw (h : len ≤ b.readableBytes) :
    b.raw.retrieveUntil (b.readerIndex + len) = (b.retrieve len).raw := by
  have hwrite : b.readerIndex + len ≤ b.writerIndex := by
    have := b.reader_le
    unfold Buffer.readableBytes at h
    omega
  have hpeek : b.raw.check .retrieveUntilPeek (b.raw.readerIndex ≤ b.readerIndex + len) = b.raw :=
    check_of (Nat.le_add_right _ _)
  have hend : b.raw.check .retrieveUntilWrite (b.readerIndex + len ≤ b.raw.writerIndex) = b.raw := check_of hwrite
  have hlen : b.readerIndex + len - b.raw.readerIndex = len := Nat.add_sub_cancel_left _ _
  simp only [retrieveUntil, hpeek, hend, hlen]
  exact retrieve_raw h

theorem retrieveAsString_raw (h : len ≤ b.readableBytes) :
    b.raw.retrieveAsString len = (b.readableSpan.take len, (b.retrieve len).raw) := by
  have hcheck : b.raw.check .retrieveAsString (len ≤ b.raw.readableBytes) = b.raw := check_of h
  have hmin : min (b.readerIndex + len) b.writerIndex = b.readerIndex + len := by
    have := b.reader_le
    unfold Buffer.readableBytes at h
    omega
  simp only [retrieveAsString, hcheck, retrieve_raw h, Buffer.readableSpan, take_slice, hmin]
  rfl

theorem resize_of_le {l : Bytes} {n : Nat} (h : l.length ≤ n) : resize l n = l ++ List.replicate (n - l.length) 0 := by
  rw [resize, List.take_of_length_le h]

/-- `makeSpace` compacts only a buffer whose readable part lies behind the front, so its assert holds. -/
theorem makeSpace_raw (hlen : b.writableBytes < len) : b.raw.makeSpace len = (b.ensureWritableBytes len).val.raw := by
  have hreader := b.reader_le
  have hwriter := b.writer_le
  simp only [makeSpace, Buffer.ensureWritableBytes, dif_pos hlen]
  by_cases hroom : b.writableBytes + b.prependableBytes < len + kCheapPrepend
  · have hgrow : b.buffer.length ≤ b.writerIndex + len := by
      unfold Buffer.writableBytes at hlen
      omega
    rw [raw_writableBytes, raw_prependableBytes, if_pos hroom, dif_pos hroom]
    simp only [Buffer.raw, Buffer.grow, resize_of_le hgrow]
  · have hfront : kCheapPrepend < b.readerIndex := by
      unfold Buffer.prependableBytes at hroom
      omega
    have hcheck : b.raw.check .makeSpaceReader (kCheapPrepend < b.raw.readerIndex) = b.raw := check_of hfront
    have hspan := raw_readableSpan (b := b)
    unfold readableSpan at hspan
    rw [raw_writableBytes, raw_prependableBytes, if_neg hroom, dif_neg hroom]
    simp only [hcheck, hspan]
    exact check_of (Nat.add_sub_cancel_left _ _).symm

theorem ensureWritableBytes_raw : b.raw.ensureWritableBytes len = (b.ensureWritableBytes len).val.raw := by
  have hroom := (b.ensureWritableBytes len).property
  have heq : (if b.raw.writableBytes < len then b.raw.makeSpace len else b.raw) =
      (b.ensureWritableBytes len).val.raw := by
    split
    · exact makeSpace_raw ‹_›
    · rename_i hno
      rw [raw_writableBytes] at hno
      simp [Buffer.ensureWritableBytes, hno]
  simp only [ensureWritableBytes, heq]
  exact check_of hroom

theorem fill_writableBytes (h : data.length ≤ b.writableBytes) :
    (b.raw.fill data).writableBytes = b.writableBytes := by
  simp only [fill, writableBytes, Buffer.raw, length_overwrite (Buffer.writerIndex_add_le h), Buffer.writableBytes]

theorem fill_hasWritten_raw (h : data.length ≤ b.writableBytes) :
    (b.raw.fill data).hasWritten data.length = (b.write data h).raw := by
  have hroom : data.length ≤ (b.raw.fill data).writableBytes := Nat.le_trans h (Nat.le_of_eq (fill_writableBytes h).symm)
  simp only [hasWritten]
  rw [check_of hroom]
  rfl

/-- What `hasWritten` counts beyond the data are bytes that stood in the vector before. -/
theorem fill_hasWritten_stale (hlen : data.length ≤ len) (h : len ≤ b.writableBytes) :
    ∃ (stale : Bytes) (hroom : (data ++ stale).length ≤ b.writableBytes), stale.length = len - data.length ∧
      (b.raw.fill data).hasWritten len = (b.write (data ++ stale) hroom).raw := by
  let stale := slice b.buffer (b.writerIndex + data.length) (b.writerIndex + len)
  have hend : b.writerIndex + len ≤ b.buffer.length := by
    have := b.writer_le
    unfold Buffer.writableBytes at h
    omega
  have hstale : stale.length = len - data.length := by
    rw [length_slice hend]
    omega
  have hlength : (data ++ stale).length = len := by
    rw [List.length_append, hstale]
    omega
  have hfill : b.raw.fill (data ++ stale) = b.raw.fill data :=
    congrArg (fun buffer => { b.raw with buffer }) (overwrite_append_slice hend)
  have hroom : (data ++ stale).length ≤ b.writableBytes := hlength ▸ h
  refine ⟨stale, hroom, hstale, ?_⟩
  rw [← hfill, ← fill_hasWritten_raw hroom, hlength]

theorem append_raw : b.raw.append data = (b.append data).raw := by
  rw [append, ensureWritableBytes_raw, fill_hasWritten_raw (b.ensureWritableBytes data.length).property]
  rfl

theorem unwrite_raw (h : len ≤ b.readableBytes) : b.raw.unwrite len = (b.unwrite len h).raw := by
  have hcheck : b.raw.check .unwrite (len ≤ b.raw.readableBytes) = b.raw := check_of h
  simp only [unwrite, hcheck]
  rfl

theorem prepend_raw (h : data.length ≤ b.prependableBytes) : b.raw.prepend data = (b.prepend data h).raw := by
  have hcheck : b.raw.check .prepend (data.length ≤ b.raw.prependableBytes) = b.raw := check_of h
  simp only [prepend, hcheck]
  rfl

theorem shrink_raw {reserve : Nat} : b.raw.shrink reserve = (b.shrink reserve).raw := by
  simp only [shrink, new_eq, ensureWritableBytes_raw, append_raw, raw_readableBytes, raw_readableSpan]
  rfl

/-- Bytes that are written into the writable part count up to the length passed to `hasWritten`. -/
theorem write_raw (h : data.length ≤ b.writableBytes) (hlen : len ≤ data.length) :
    ∃ b' : Buffer, (b.raw.fill data).hasWritten len = b'.raw ∧ b'.readableSpan = b.readableSpan ++ data.take len := by
  have hback : data.length - len ≤ (b.write data h).readableBytes := by
    rw [← Buffer.length_readableSpan, Buffer.readableSpan_write, List.length_append]
    omega
  refine ⟨(b.write data h).unwrite (data.length - len) hback, ?_, ?_⟩
  · have hroom : len ≤ (b.raw.fill data).writableBytes := by
      rw [fill_writableBytes h]
      exact Nat.le_trans hlen h
    simp only [hasWritten]
    rw [check_of hroom]
    simp only [fill, Buffer.raw, Buffer.unwrite, Buffer.write, RawBuffer.mk.injEq, true_and, and_true]
    omega
  · rw [Buffer.readableSpan_unwrite, Buffer.readableSpan_write, List.length_append, List.take_append]
    congr 1
    · exact List.take_of_length_le (by omega)
    · congr 1
      omega

/-- More is read than the writable part holds: it is full. -/
theorem fill_full (h : ¬data.length ≤ b.writableBytes) :
    ({ b.raw.fill (data.take b.writableBytes) with
      writerIndex := (b.raw.fill (data.take b.writableBytes)).buffer.length } : RawBuffer) =
      (b.write (data.take b.writableBytes) (List.length_take_le _ _)).raw := by
  have hbound : b.writerIndex + (data.take b.writableBytes).length ≤ b.buffer.length :=
    Buffer.writerIndex_add_le (List.length_take_le _ _)
  simp only [fill, Buffer.raw, Buffer.write, RawBuffer.mk.injEq, true_and, and_true]
  rw [length_overwrite hbound, List.length_take, Buffer.writableBytes]
  have := b.writer_le
  unfold Buffer.writableBytes at h
  omega

theorem readFd_raw (data : Bytes) : b.raw.readFd (some data) = (b.readFd data).raw := by
  by_cases h : data.length ≤ b.writableBytes
  · simp only [readFd, Buffer.readFd, raw_writableBytes, if_pos h, List.take_of_length_le h]
    rfl
  · simp only [readFd, Buffer.readFd, raw_writableBytes, if_neg h, fill_full h, append_raw]

end RawBuffer

/-! ## The abstract sequences -/

/-- What the buffers are for: a sequence of bytes each, and the strings that were taken from them. -/
structure ByteSequences (ι : Type) where
  bytes : ι → Bytes
  strings : List Bytes := []

namespace ByteSequences
variable {ι : Type} [DecidableEq ι]

def empty : ByteSequences ι := ⟨fun _ => [], []⟩

def on (i : ι) (f : Bytes → Bytes) (a : ByteSequences ι) : ByteSequences ι :=
  { a with bytes := fun j => if j = i then f (a.bytes i) else a.bytes j }

def perform (a : ByteSequences ι) : BufferOp ι → ByteSequences ι
  | .append i data => a.on i (· ++ data)
  | .prepend i data => a.on i (data ++ ·)
  | .retrieve i len => a.on i (·.drop len)
  | .retrieveUntil i len => a.on i (·.drop len)
  | .retrieveAsString i len => { a.on i (·.drop len) with strings := (a.bytes i).take len :: a.strings }
  | .retrieveAll i => a.on i fun _ => []
  | .ensureWritableBytes _ _ => a
  | .write i data len => a.on i (· ++ data.take len)
  | .unwrite i len => a.on i fun l => l.take (l.length - len)
  | .shrink _ _ => a
  | .swap i j => { a with bytes := fun k => if k = i then a.bytes j else if k = j then a.bytes i else a.bytes k }
  | .readFd _ none => a
  | .readFd i (some data) => a.on i (· ++ data)

end ByteSequences

namespace RawBuffers
variable {ι : Type} [DecidableEq ι]

def new (sizes : ι → Nat) : RawBuffers ι := { buffers := fun i => RawBuffer.new (sizes i) }

/-- Lengths are within the bytes that are there, and `readv` delivers no more than it has room for. -/
def InRange (s : RawBuffers ι) : BufferOp ι → Prop
  | .prepend i data => data.length ≤ (s.buffers i).prependableBytes
  | .retrieve i len => len ≤ (s.buffers i).readableBytes
  | .retrieveUntil i len => len ≤ (s.buffers i).readableBytes
  | .retrieveAsString i len => len ≤ (s.buffers i).readableBytes
  | .write i data len => data.length ≤ (s.buffers i).writableBytes ∧ len ≤ data.length
  | .unwrite i len => len ≤ (s.buffers i).readableBytes
  | .readFd i (some data) => data.length ≤ (s.buffers i).readCapacity
  | _ => True

instance (s : RawBuffers ι) (op : BufferOp ι) : Decidable (s.InRange op) := by
  unfold InRange
  split <;> infer_instance

/-- The buffers are ones with the invariant of `Buffer`, no assert has failed, and they hold the sequences. -/
structure Refines (s : RawBuffers ι) (a : ByteSequences ι) : Prop where
  each (i : ι) : ∃ b : Buffer, s.buffers i = b.raw ∧ b.readableSpan = a.bytes i
  strings : s.strings = a.strings

variable {s : RawBuffers ι} {a : ByteSequences ι} {i : ι}

omit [DecidableEq ι] in
theorem refines_new (sizes : ι → Nat) : (new sizes).Refines .empty :=
  ⟨fun i => ⟨Buffer.new (sizes i), RawBuffer.new_eq _, Buffer.readableSpan_new⟩, rfl⟩

/-- A function on one buffer need only be looked at there. -/
theorem Refines.on (h : s.Refines a) {f : RawBuffer → RawBuffer} {g : Bytes → Bytes}
    (hone : ∀ b : Buffer, s.buffers i = b.raw → ∃ b' : Buffer, f b.raw = b'.raw ∧ b'.readableSpan = g b.readableSpan) :
    (s.on i f).Refines (a.on i g) := by
  refine ⟨fun j => ?_, h.strings⟩
  simp only [RawBuffers.on, ByteSequences.on]
  by_cases hij : j = i
  · obtain ⟨b, hraw, hspan⟩ := h.each i
    obtain ⟨b', hraw', hspan'⟩ := hone b hraw
    refine ⟨b', ?_, ?_⟩
    · rw [if_pos hij, hraw, hraw']
    · rw [if_pos hij, hspan', hspan]
  · rw [if_neg hij, if_neg hij]
    exact h.each j

/-- A function that keeps the readable bytes keeps the sequences. -/
theorem Refines.on_same (h : s.Refines a) {f : RawBuffer → RawBuffer}
    (hone : ∀ b : Buffer, ∃ b' : Buffer, f b.raw = b'.raw ∧ b'.readableSpan = b.readableSpan) :
    (s.on i f).Refines a := by
  have hsame : a.on i id = a := by
    simp only [ByteSequences.on, id_eq]
    congr 1
    funext j
    split
    · rename_i hij
      rw [hij]
    · rfl
  have := h.on (i := i) (f := f) (g := id) fun b _ => hone b
  rwa [hsame] at this

theorem Refines.swap (h : s.Refines a) (i j : ι) : (s.perform (.swap i j)).Refines (a.perform (.swap i j)) := by
  refine ⟨fun k => ?_, h.strings⟩
  simp only [perform, ByteSequences.perform]
  split
  · exact h.each j
  · split
    · exact h.each i
    · exact h.each k

theorem Refines.perform (h : s.Refines a) {op : BufferOp ι} (hin : s.InRange op) :
    (s.perform op).Refines (a.perform op) := by
  cases op with
  | append i data =>
    exact h.on (g := (· ++ data)) fun b _ => ⟨b.append data, RawBuffer.append_raw, Buffer.readableSpan_append⟩
  | prepend i data =>
    refine h.on (g := (data ++ ·)) fun b hb => ?_
    have hlen : data.length ≤ b.prependableBytes := by
      rwa [InRange, hb] at hin
    exact ⟨b.prepend data hlen, RawBuffer.prepend_raw hlen, Buffer.readableSpan_prepend hlen⟩
  | retrieve i len =>
    refine h.on (g := (·.drop len)) fun b hb => ?_
    rw [InRange, hb] at hin
    exact ⟨b.retrieve len, RawBuffer.retrieve_raw hin, Buffer.readableSpan_retrieve⟩
  | retrieveUntil i len =>
    refine h.on (f := fun r => r.retrieveUntil (r.readerIndex + len)) (g := (·.drop len)) fun b hb => ?_
    rw [InRange, hb] at hin
    exact ⟨b.retrieve len, RawBuffer.retrieveUntil_raw hin, Buffer.readableSpan_retrieve⟩
  | retrieveAsString i len =>
    obtain ⟨b, hb, hspan⟩ := h.each i
    rw [InRange, hb] at hin
    have hstring : ((s.buffers i).retrieveAsString len).1 = (a.bytes i).take len := by
      rw [hb, RawBuffer.retrieveAsString_raw hin, hspan]
    have hon : (s.on i fun r => (r.retrieveAsString len).2).Refines (a.on i (·.drop len)) := by
      refine h.on fun b' hb' => ?_
      have hlen : len ≤ b'.readableBytes := by
        rwa [← hb, hb'] at hin
      exact ⟨b'.retrieve len, by rw [RawBuffer.retrieveAsString_raw hlen], Buffer.readableSpan_retrieve⟩
    refine ⟨hon.each, ?_⟩
    simp only [RawBuffers.perform, ByteSequences.perform, hstring, h.strings]
  | retrieveAll i =>
    exact h.on (g := fun _ => []) fun b _ =>
      ⟨b.retrieveAll, RawBuffer.retrieveAll_raw, Buffer.readableSpan_retrieveAll⟩
  | ensureWritableBytes i len =>
    exact h.on_same fun b =>
      ⟨(b.ensureWritableBytes len).val, RawBuffer.ensureWritableBytes_raw, Buffer.readableSpan_ensureWritableBytes⟩
  | write i data len =>
    obtain ⟨hroom, hlen⟩ := hin
    refine h.on (f := fun r => (r.fill data).hasWritten len) (g := (· ++ data.take len)) fun b hb => ?_
    rw [hb] at hroom
    exact RawBuffer.write_raw hroom hlen
  | unwrite i len =>
    refine h.on (g := fun l => l.take (l.length - len)) fun b hb => ?_
    have hlen : len ≤ b.readableBytes := by
      rwa [InRange, hb] at hin
    refine ⟨b.unwrite len hlen, RawBuffer.unwrite_raw hlen, ?_⟩
    rw [Buffer.readableSpan_unwrite, Buffer.length_readableSpan]
  | shrink i reserve => exact h.on_same fun b => ⟨b.shrink reserve, RawBuffer.shrink_raw, Buffer.readableSpan_shrink⟩
  | swap i j => exact h.swap i j
  | readFd i result =>
    cases result with
    | none => exact h.on_same fun b => ⟨b, rfl, rfl⟩
    | some data =>
      exact h.on (g := (· ++ data)) fun b _ => ⟨b.readFd data, RawBuffer.readFd_raw data, Buffer.readableSpan_readFd⟩

theorem refines_of_run {sizes : ι → Nat} {ops : List (BufferOp ι)} (run : system.Run InRange (new sizes) ops s) :
    s.Refines (ops.foldl ByteSequences.perform .empty) := by
  refine run.refines (fun h hin hstep => ?_) (refines_new sizes)
  cases hstep
  exact h.perform hin

/-- However the functions of any number of buffers are called with lengths in range, the readable bytes and the
strings taken are those of the abstract sequences, the indices stay in order, no assert fails, and a `readv` that
fails changes nothing. -/
theorem refines_sequences {sizes : ι → Nat} {ops : List (BufferOp ι)} (run : system.Run InRange (new sizes) ops s) :
    (∀ i, (s.buffers i).readableSpan = (ops.foldl ByteSequences.perform .empty).bytes i ∧
      (s.buffers i).readerIndex ≤ (s.buffers i).writerIndex ∧
      (s.buffers i).writerIndex ≤ (s.buffers i).buffer.length ∧ (s.buffers i).failed = []) ∧
      s.strings = (ops.foldl ByteSequences.perform .empty).strings ∧
      ∀ i, s.perform (.readFd i none) = s := by
  have hrefines := refines_of_run run
  refine ⟨fun i => ?_, hrefines.strings, fun i => ?_⟩
  · obtain ⟨b, hraw, hspan⟩ := hrefines.each i
    rw [hraw, RawBuffer.raw_readableSpan]
    exact ⟨hspan, b.reader_le, b.writer_le, rfl⟩
  · simp only [RawBuffers.perform, on, RawBuffer.readFd]
    congr 1
    funext j
    split
    · rename_i hij
      rw [hij]
    · rfl

/-- A header is put in front of the data, which takes `readerIndex_` below `kCheapPrepend`; after part of it is
retrieved the rest is moved to the front to make room. -/
theorem refines_sequences_compacted :
    ∃ s : RawBuffers Bool, system.Run InRange (new fun _ => 4)
        [.append true [1, 2], .prepend true [9], .retrieveAsString true 2, .readFd true (some [3, 4, 5, 6, 7]),
          .retrieve true 4, .ensureWritableBytes true 4, .write true [8, 0] 1, .unwrite true 1, .swap true false,
          .readFd true none, .shrink false 0] s ∧
      (s.buffers false).readableSpan = [6, 7] ∧ s.strings = [[9, 1]] := by
  refine Lib.Stepper.Run.replay rfl fun run => ?_
  obtain ⟨heach, hstrings, _⟩ := refines_sequences run
  exact ⟨(heach false).1, hstrings⟩

end RawBuffers
end Muduo
