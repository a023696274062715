import Muduo.BufferGrowth
import Muduo.Theorems.BufferRefinement

/-! # Making room for any size

While the sums of `makeSpace` and `shrink` stay below 2^64, the functions with the arithmetic of `size_t` are those on
`Buffer`, or throw without effect. Close to 2^64 the sums wrap: `makeSpace` then compacts a buffer that has no room, or
resizes the storage to less than is in it. -/

namespace Muduo
open Lib

namespace SizeT

theorem add_of_lt {x y : Nat} (h : x + y < 2 ^ 64) : add x y = x + y := Nat.mod_eq_of_lt h

theorem sub_of_le {x y : Nat} (h : y ≤ x) (hx : x < 2 ^ 64) : sub x y = x - y := by
  have hsum : x + (2 ^ 64 - y) = x - y + 2 ^ 64 := by omega
  rw [sub, hsum, Nat.add_mod_right]
  exact Nat.mod_eq_of_lt (Nat.lt_of_le_of_lt (Nat.sub_le _ _) hx)

end SizeT

namespace Buffer
variable {b : Buffer} {len : Nat} {data : Bytes}

/-! ## The size of the vector -/

theorem length_moveToFront (h : kCheapPrepend ≤ b.readerIndex) :
    (b.moveToFront h).buffer.length = b.buffer.length := by
  have hlen : kCheapPrepend + b.readableSpan.length ≤ b.buffer.length := by
    have := b.reader_le
    have := b.writer_le
    rw [length_readableSpan, readableBytes]
    omega
  exact length_overwrite hlen

theorem length_ensureWritableBytes_le :
    (b.ensureWritableBytes len).val.buffer.length ≤ max b.buffer.length (b.writerIndex + len) := by
  unfold ensureWritableBytes
  split
  · split
    · simp only [grow, List.length_append, List.length_replicate]
      omega
    · rw [length_moveToFront]
      exact Nat.le_max_left _ _
  · exact Nat.le_max_left _ _

theorem le_length_ensureWritableBytes : b.buffer.length ≤ (b.ensureWritableBytes len).val.buffer.length := by
  unfold ensureWritableBytes
  split
  · split
    · simp only [grow, List.length_append]
      exact Nat.le_add_right _ _
    · simp only [length_moveToFront, Nat.le_refl]
  · exact Nat.le_refl _

theorem length_write (h : data.length ≤ b.writableBytes) : (b.write data h).buffer.length = b.buffer.length :=
  length_overwrite (writerIndex_add_le h)

theorem length_append : (b.append data).buffer.length = (b.ensureWritableBytes data.length).val.buffer.length :=
  length_write (b.ensureWritableBytes data.length).property

/-- Nothing is moved to append what there is room for. -/
theorem writableBytes_append (h : data.length ≤ b.writableBytes) :
    (b.append data).writableBytes = b.writableBytes - data.length := by
  have hsame : (b.ensureWritableBytes data.length).val = b := by
    simp only [ensureWritableBytes, dif_neg (Nat.not_lt.mpr h)]
  have hwriter : (b.append data).writerIndex = b.writerIndex + data.length := by
    simp only [append, write, hsame]
  rw [writableBytes, length_append, hsame, hwriter, writableBytes, Nat.sub_sub]

theorem length_retrieve : (b.retrieve len).buffer.length = b.buffer.length := by
  unfold retrieve
  split <;> rfl

theorem length_prepend (h : data.length ≤ b.prependableBytes) :
    (b.prepend data h).buffer.length = b.buffer.length := by
  have hlen : b.readerIndex - data.length + data.length ≤ b.buffer.length := by
    have := b.reader_le
    have := b.writer_le
    unfold prependableBytes at h
    omega
  exact length_overwrite hlen

end Buffer

namespace WordBuffer
open Buffer (kCheapPrepend kInitialSize)
variable {b : Buffer} (alloc : Nat → Bool) {len reserve : Nat} {data : Bytes}

/-- The sums of `makeSpace` do not wrap, if it is called. -/
def Fits (r : RawBuffer) (len : Nat) : Prop :=
  r.writableBytes < len → r.writerIndex + len < 2 ^ 64 ∧ len + kCheapPrepend < 2 ^ 64

/-- A call throws and leaves `b`, or finishes with `b'`. -/
def Ends (g : Grown) (b b' : Buffer) : Prop := g = ⟨b.raw, true⟩ ∨ g = ⟨b'.raw, false⟩

instance (r : RawBuffer) (len : Nat) : Decidable (Fits r len) := by
  unfold Fits
  infer_instance

/-! ## The functions without a wrap -/

theorem writableBytes_raw (hb : b.buffer.length < 2 ^ 64) : writableBytes b.raw = b.writableBytes :=
  SizeT.sub_of_le b.writer_le hb

theorem readableBytes_raw (hb : b.buffer.length < 2 ^ 64) : readableBytes b.raw = b.readableBytes :=
  SizeT.sub_of_le b.reader_le (Nat.lt_of_le_of_lt b.writer_le hb)

theorem readableSpan_raw (hb : b.buffer.length < 2 ^ 64) : readableSpan b.raw = b.readableSpan := by
  rw [readableSpan, readableBytes_raw hb, ← RawBuffer.raw_readableBytes]
  exact RawBuffer.raw_readableSpan

theorem new_raw {initialSize : Nat} (h : kCheapPrepend + initialSize < 2 ^ 64) :
    new initialSize = (Buffer.new initialSize).raw := by
  have hb : (Buffer.new initialSize).buffer.length < 2 ^ 64 := by
    simpa only [Buffer.new, List.length_replicate] using h
  have hlit : (⟨List.replicate (SizeT.add kCheapPrepend initialSize) 0, kCheapPrepend, kCheapPrepend, []⟩ : RawBuffer) =
      (Buffer.new initialSize).raw := by
    rw [SizeT.add_of_lt h]
    rfl
  have hreadable : readableBytes (Buffer.new initialSize).raw = 0 := readableBytes_raw hb
  have hwritable : writableBytes (Buffer.new initialSize).raw = initialSize := by
    rw [writableBytes_raw hb, Buffer.writableBytes]
    simp only [Buffer.new, List.length_replicate, Nat.add_sub_cancel_left]
  have hprepend : prependableBytes (Buffer.new initialSize).raw = kCheapPrepend := rfl
  simp only [new, hlit, RawBuffer.check_of, hreadable, hwritable, hprepend]

theorem tooSmall_raw (hb : b.buffer.length < 2 ^ 64) (h : len + kCheapPrepend < 2 ^ 64) :
    tooSmall len b.raw = decide (b.writableBytes + b.prependableBytes < len + kCheapPrepend) := by
  have hfree : b.writableBytes + b.prependableBytes < 2 ^ 64 := by
    have := b.reader_le
    have := b.writer_le
    unfold Buffer.writableBytes Buffer.prependableBytes
    omega
  have hprepend : prependableBytes b.raw = b.prependableBytes := rfl
  rw [tooSmall, writableBytes_raw hb, hprepend, SizeT.add_of_lt hfree, SizeT.add_of_lt h]

theorem makeSpace_raw (hb : b.buffer.length < 2 ^ 64) (hlen : b.writableBytes < len) (hfits : Fits b.raw len) :
    Ends (makeSpace alloc len b.raw) b (b.ensureWritableBytes len).val := by
  obtain ⟨hsize, hneed⟩ := hfits hlen
  have hspec := RawBuffer.makeSpace_raw hlen
  rw [makeSpace, tooSmall_raw hb hneed]
  by_cases hroom : b.writableBytes + b.prependableBytes < len + kCheapPrepend
  · have hgrown : b.raw.makeSpace len =
        { b.raw with buffer := RawBuffer.resize b.raw.buffer (b.raw.writerIndex + len) } := if_pos hroom
    rw [decide_eq_true hroom, if_pos rfl, SizeT.add_of_lt hsize, Ends, ← hspec, hgrown]
    dsimp only
    split
    · exact .inr rfl
    · exact .inl rfl
  · right
    have hfront : kCheapPrepend < b.readerIndex := by
      unfold Buffer.prependableBytes at hroom
      omega
    have hcheck : b.raw.check .makeSpaceReader (kCheapPrepend < b.raw.readerIndex) = b.raw := RawBuffer.check_of hfront
    have hspan : slice b.raw.buffer b.raw.readerIndex (b.raw.readerIndex + b.readableBytes) = b.readableSpan :=
      RawBuffer.raw_readableSpan
    have hend : SizeT.add kCheapPrepend b.readableBytes = kCheapPrepend + b.readableBytes := by
      apply SizeT.add_of_lt
      have := b.reader_le
      have := b.writer_le
      unfold Buffer.readableBytes
      omega
    have hmoved : (b.ensureWritableBytes len).val = b.moveToFront (Nat.le_of_lt hfront) := by
      simp only [Buffer.ensureWritableBytes, dif_pos hlen, dif_neg hroom]
    have hreadable : b.readableBytes = readableBytes (b.moveToFront (Nat.le_of_lt hfront)).raw := by
      rw [readableBytes_raw (by rwa [Buffer.length_moveToFront])]
      exact (Nat.add_sub_cancel_left _ _).symm
    rw [decide_eq_false hroom, if_neg Bool.false_ne_true, hmoved]
    simp only [hcheck, readableBytes_raw hb, hspan, hend]
    congr 1
    exact RawBuffer.check_of hreadable

theorem ensureWritableBytes_lt (hb : b.buffer.length < 2 ^ 64) (hfits : Fits b.raw len) :
    (b.ensureWritableBytes len).val.buffer.length < 2 ^ 64 := by
  by_cases hlen : b.writableBytes < len
  · exact Nat.lt_of_le_of_lt Buffer.length_ensureWritableBytes_le (Nat.max_lt.mpr ⟨hb, (hfits hlen).1⟩)
  · simpa only [Buffer.ensureWritableBytes, dif_neg hlen] using hb

theorem ensureWritableBytes_raw (hb : b.buffer.length < 2 ^ 64) (hfits : Fits b.raw len) :
    Ends (ensureWritableBytes alloc len b.raw) b (b.ensureWritableBytes len).val := by
  have hroom : len ≤ writableBytes (b.ensureWritableBytes len).val.raw := by
    rw [writableBytes_raw (ensureWritableBytes_lt hb hfits)]
    exact (b.ensureWritableBytes len).property
  have hmade : Ends (if writableBytes b.raw < len then makeSpace alloc len b.raw else { buffer := b.raw }) b
      (b.ensureWritableBytes len).val := by
    rw [writableBytes_raw hb]
    split
    · exact makeSpace_raw alloc hb ‹_› hfits
    · rename_i hno
      right
      simp only [Buffer.ensureWritableBytes, dif_neg hno]
  rw [ensureWritableBytes]
  obtain hthrew | hdone := hmade
  · left
    simp only [hthrew, if_pos]
  · right
    simp only [hdone, Bool.false_eq_true, if_false, RawBuffer.check_of hroom]

theorem hasWritten_raw (hb : b.buffer.length < 2 ^ 64) (h : data.length ≤ b.writableBytes) :
    hasWritten data.length (b.raw.fill data) = (b.write data h).raw := by
  have hend : b.writerIndex + data.length ≤ b.buffer.length := Buffer.writerIndex_add_le h
  have hlen : (b.raw.fill data).buffer.length = b.buffer.length := length_overwrite hend
  have hroom : data.length ≤ writableBytes (b.raw.fill data) := by
    rw [writableBytes, hlen]
    exact Nat.le_trans h (Nat.le_of_eq (writableBytes_raw hb).symm)
  have hsum : SizeT.add b.writerIndex data.length = b.writerIndex + data.length :=
    SizeT.add_of_lt (Nat.lt_of_le_of_lt hend hb)
  simp only [hasWritten, RawBuffer.check_of hroom]
  simp only [RawBuffer.fill, Buffer.raw, hsum, Buffer.write]

theorem append_raw (hb : b.buffer.length < 2 ^ 64) (hfits : Fits b.raw data.length) :
    Ends (append alloc data b.raw) b (b.append data) := by
  rw [append]
  obtain hthrew | hdone := ensureWritableBytes_raw alloc hb hfits
  · left
    simp only [hthrew, if_pos]
  · right
    simp only [hdone, Bool.false_eq_true, if_false]
    rw [hasWritten_raw (ensureWritableBytes_lt hb hfits) (b.ensureWritableBytes data.length).property]
    rfl

/-- The sum of `shrink` does not wrap, nor do those of `makeSpace` in it. -/
def FitsShrink (r : RawBuffer) (reserve : Nat) : Prop := r.readableBytes + reserve + kCheapPrepend < 2 ^ 64

/-- The other buffer of `shrink` has nothing in it. -/
theorem fits_new (h : len + kCheapPrepend < 2 ^ 64) : Fits (Buffer.new kInitialSize).raw len := by
  have hwriter : (Buffer.new kInitialSize).raw.writerIndex = kCheapPrepend := rfl
  rw [Fits, hwriter, Nat.add_comm kCheapPrepend len]
  exact fun _ => ⟨h, h⟩

theorem fits_of_le (h : len ≤ b.writableBytes) : Fits b.raw len := fun hno => absurd hno (Nat.not_lt.mpr h)

/-- The room that `shrink` makes is enough for the copy. -/
theorem fits_copy :
    Fits ((Buffer.new kInitialSize).ensureWritableBytes (b.readableBytes + reserve)).val.raw b.readableSpan.length := by
  have hroom := ((Buffer.new kInitialSize).ensureWritableBytes (b.readableBytes + reserve)).property
  apply fits_of_le
  rw [Buffer.length_readableSpan]
  exact Nat.le_trans (Nat.le_add_right _ _) hroom

theorem length_new : (Buffer.new kInitialSize).buffer.length < 2 ^ 64 := by
  rw [Buffer.new, List.length_replicate]
  decide

theorem shrink_raw (hb : b.buffer.length < 2 ^ 64) (hfits : FitsShrink b.raw reserve) :
    Ends (shrink alloc reserve b.raw) b (b.shrink reserve) := by
  have hsum : SizeT.add b.readableBytes reserve = b.readableBytes + reserve :=
    SizeT.add_of_lt (Nat.lt_of_le_of_lt (Nat.le_add_right _ _) hfits)
  have hnew : new kInitialSize = (Buffer.new kInitialSize).raw := new_raw (by decide)
  have hroom : Fits (Buffer.new kInitialSize).raw (b.readableBytes + reserve) := fits_new hfits
  rw [shrink, readableBytes_raw hb, readableSpan_raw hb, hsum, hnew]
  split
  · obtain hthrew | hdone := ensureWritableBytes_raw alloc length_new hroom
    · left
      simp only [hthrew, if_pos]
    · simp only [hdone, Bool.false_eq_true, if_false]
      obtain hthrew | hdone := append_raw alloc (ensureWritableBytes_lt length_new hroom) fits_copy
      · left
        simp only [hthrew, if_pos]
      · right
        simp only [hdone, Bool.false_eq_true, if_false]
        rfl
  · exact .inl rfl

/-- `readFd` appends what does not fit into the writable part, which is full then. -/
def FitsRead (r : RawBuffer) (data : Bytes) : Prop :=
  Fits { r with writerIndex := r.buffer.length } (data.length - r.writableBytes)

theorem fits_rest (h : ¬data.length ≤ b.writableBytes) (hfits : FitsRead b.raw data) :
    Fits (b.write (data.take b.writableBytes) (List.length_take_le _ _)).raw (data.drop b.writableBytes).length := by
  have hlen := Buffer.length_write (List.length_take_le b.writableBytes data)
  have hwriter : (b.write (data.take b.writableBytes) (List.length_take_le _ _)).writerIndex = b.buffer.length := by
    simp only [Buffer.write, List.length_take]
    have := b.writer_le
    unfold Buffer.writableBytes at *
    omega
  simp only [FitsRead, Fits, RawBuffer.writableBytes, Buffer.raw] at hfits
  simp only [Fits, RawBuffer.writableBytes, Buffer.raw, hlen, hwriter, List.length_drop]
  exact hfits

/-- The writable part is filled first. -/
theorem readFd_raw (hb : b.buffer.length < 2 ^ 64) (hfits : FitsRead b.raw data) :
    Ends (readFd alloc (some data) b.raw) (b.write (data.take b.writableBytes) (List.length_take_le _ _))
      (b.readFd data) := by
  rw [readFd, writableBytes_raw hb]
  by_cases h : data.length ≤ b.writableBytes
  · right
    have hsum : SizeT.add b.writerIndex data.length = b.writerIndex + data.length :=
      SizeT.add_of_lt (Nat.lt_of_le_of_lt (Buffer.writerIndex_add_le h) hb)
    simp only [if_pos h, Buffer.readFd, List.take_of_length_le h]
    simp only [RawBuffer.fill, Buffer.raw, hsum, Buffer.write]
  · simp only [if_neg h, RawBuffer.fill_full h, Buffer.readFd]
    exact append_raw alloc (by rwa [Buffer.length_write]) (fits_rest h hfits)

/-! ## Runs -/

variable {ι : Type} [DecidableEq ι] {s : RawBuffers ι} {i : ι}

def NoWrap (s : RawBuffers ι) : BufferOp ι → Prop
  | .append i data => Fits (s.buffers i) data.length
  | .ensureWritableBytes i len => Fits (s.buffers i) len
  | .shrink i reserve => FitsShrink (s.buffers i) reserve
  | .readFd i (some data) => FitsRead (s.buffers i) data
  | _ => True

/-- Lengths are in range, and no sum of a function that makes room wraps. -/
def Admissible (s : RawBuffers ι) (e : (Nat → Bool) × BufferOp ι) : Prop := s.InRange e.2 ∧ NoWrap s e.2

instance (r : RawBuffer) (reserve : Nat) : Decidable (FitsShrink r reserve) := by
  unfold FitsShrink
  infer_instance

instance (r : RawBuffer) (data : Bytes) : Decidable (FitsRead r data) := by
  unfold FitsRead
  infer_instance

instance (s : RawBuffers ι) : (op : BufferOp ι) → Decidable (NoWrap s op)
  | .append i data => inferInstanceAs (Decidable (Fits (s.buffers i) data.length))
  | .ensureWritableBytes i len => inferInstanceAs (Decidable (Fits (s.buffers i) len))
  | .shrink i reserve => inferInstanceAs (Decidable (FitsShrink (s.buffers i) reserve))
  | .readFd i (some data) => inferInstanceAs (Decidable (FitsRead (s.buffers i) data))
  | .prepend .. | .retrieve .. | .retrieveUntil .. | .retrieveAsString .. | .retrieveAll .. | .write .. | .unwrite ..
  | .swap .. | .readFd _ none => inferInstanceAs (Decidable True)

instance (s : RawBuffers ι) (e : (Nat → Bool) × BufferOp ι) : Decidable (Admissible s e) := by
  unfold Admissible
  infer_instance

/-- Every buffer has the invariant of `Buffer` and a size that is a `size_t`. -/
def Sized (s : RawBuffers ι) : Prop := ∀ i, ∃ b : Buffer, s.buffers i = b.raw ∧ b.buffer.length < 2 ^ 64

theorem Sized.on (h : Sized s) {f : RawBuffer → RawBuffer}
    (hone : ∀ b : Buffer, s.buffers i = b.raw → b.buffer.length < 2 ^ 64 →
      ∃ b' : Buffer, f b.raw = b'.raw ∧ b'.buffer.length < 2 ^ 64) : Sized (s.on i f) := by
  intro j
  by_cases hij : j = i
  · obtain ⟨b, hraw, hb⟩ := h i
    simp only [RawBuffers.on, if_pos hij, hraw]
    exact hone b hraw hb
  · simp only [RawBuffers.on, if_neg hij]
    exact h j

/-- A call that throws or finishes keeps the sizes if both buffers have one. -/
theorem Ends.sized {g : Grown} {b b' : Buffer} (h : Ends g b b') (hb : b.buffer.length < 2 ^ 64)
    (hb' : b'.buffer.length < 2 ^ 64) : ∃ b'' : Buffer, g.buffer = b''.raw ∧ b''.buffer.length < 2 ^ 64 := by
  obtain hthrew | hdone := h
  · exact ⟨b, by rw [hthrew], hb⟩
  · exact ⟨b', by rw [hdone], hb'⟩

theorem append_lt (hb : b.buffer.length < 2 ^ 64) (hfits : Fits b.raw data.length) :
    (b.append data).buffer.length < 2 ^ 64 := by
  rw [Buffer.length_append]
  exact ensureWritableBytes_lt hb hfits

theorem readFd_lt (hb : b.buffer.length < 2 ^ 64) (hfits : FitsRead b.raw data) :
    (b.readFd data).buffer.length < 2 ^ 64 := by
  rw [Buffer.readFd]
  split
  · rwa [Buffer.length_write]
  · exact append_lt (by rwa [Buffer.length_write]) (fits_rest ‹_› hfits)

theorem shrink_lt (hfits : FitsShrink b.raw reserve) : (b.shrink reserve).buffer.length < 2 ^ 64 :=
  append_lt (ensureWritableBytes_lt length_new (fits_new hfits)) fits_copy

theorem Sized.swap (h : Sized s) (i j : ι) : Sized (s.perform (.swap i j)) := by
  intro k
  simp only [RawBuffers.perform]
  split
  · exact h j
  · split
    · exact h i
    · exact h k

omit [DecidableEq ι] in
theorem buffer_hasWritten {r : RawBuffer} : (r.hasWritten len).buffer = r.buffer := by
  simp only [RawBuffer.hasWritten, RawBuffer.check]
  split <;> rfl

theorem Sized.perform (h : Sized s) {e : (Nat → Bool) × BufferOp ι} (hadm : Admissible s e) :
    Sized (WordBuffer.perform s e.1 e.2) := by
  obtain ⟨alloc, op⟩ := e
  obtain ⟨hin, hwrap⟩ := hadm
  cases op with
  | append i data =>
    refine h.on (f := fun r => (append alloc data r).buffer) fun b hraw hb => ?_
    have hfits : Fits b.raw data.length := by rwa [← hraw]
    exact (append_raw alloc hb hfits).sized hb (append_lt hb hfits)
  | prepend i data =>
    refine h.on (f := RawBuffer.prepend data) fun b hraw hb => ?_
    have hlen : data.length ≤ b.prependableBytes := by
      rwa [RawBuffers.InRange, hraw] at hin
    exact ⟨b.prepend data hlen, RawBuffer.prepend_raw hlen, by rwa [Buffer.length_prepend]⟩
  | retrieve i len =>
    refine h.on (f := RawBuffer.retrieve len) fun b hraw hb => ?_
    rw [RawBuffers.InRange, hraw] at hin
    exact ⟨b.retrieve len, RawBuffer.retrieve_raw hin, by rwa [Buffer.length_retrieve]⟩
  | retrieveUntil i len =>
    refine h.on (f := fun r => r.retrieveUntil (r.readerIndex + len)) fun b hraw hb => ?_
    rw [RawBuffers.InRange, hraw] at hin
    exact ⟨b.retrieve len, RawBuffer.retrieveUntil_raw hin, by rwa [Buffer.length_retrieve]⟩
  | retrieveAsString i len =>
    refine h.on (i := i) (f := fun r => (r.retrieveAsString len).2) fun b hraw hb => ?_
    rw [RawBuffers.InRange, hraw] at hin
    exact ⟨b.retrieve len, by rw [RawBuffer.retrieveAsString_raw hin], by rwa [Buffer.length_retrieve]⟩
  | retrieveAll i =>
    exact h.on (f := RawBuffer.retrieveAll) fun b _ hb => ⟨b.retrieveAll, RawBuffer.retrieveAll_raw, hb⟩
  | ensureWritableBytes i len =>
    refine h.on (f := fun r => (ensureWritableBytes alloc len r).buffer) fun b hraw hb => ?_
    have hfits : Fits b.raw len := by rwa [← hraw]
    exact (ensureWritableBytes_raw alloc hb hfits).sized hb (ensureWritableBytes_lt hb hfits)
  | write i data len =>
    obtain ⟨hroom, hlen⟩ := hin
    refine h.on (f := fun r => (r.fill data).hasWritten len) fun b hraw hb => ?_
    rw [hraw] at hroom
    obtain ⟨b', hb', -⟩ := RawBuffer.write_raw hroom hlen
    have hlength : b'.raw.buffer.length = b.buffer.length := by
      rw [← hb', buffer_hasWritten]
      exact Buffer.length_write hroom
    exact ⟨b', hb', Nat.lt_of_le_of_lt (Nat.le_of_eq hlength) hb⟩
  | unwrite i len =>
    refine h.on (f := RawBuffer.unwrite len) fun b hraw hb => ?_
    have hlen : len ≤ b.readableBytes := by
      rwa [RawBuffers.InRange, hraw] at hin
    exact ⟨b.unwrite len hlen, RawBuffer.unwrite_raw hlen, hb⟩
  | shrink i reserve =>
    refine h.on (f := fun r => (shrink alloc reserve r).buffer) fun b hraw hb => ?_
    have hfits : FitsShrink b.raw reserve := by rwa [← hraw]
    exact (shrink_raw alloc hb hfits).sized hb (shrink_lt hfits)
  | swap i j => exact h.swap i j
  | readFd i result =>
    refine h.on (f := fun r => (readFd alloc result r).buffer) fun b hraw hb => ?_
    cases result with
    | none => exact ⟨b, rfl, hb⟩
    | some data =>
      have hfits : FitsRead b.raw data := by rwa [← hraw]
      exact (readFd_raw alloc hb hfits).sized (by rwa [Buffer.length_write]) (readFd_lt hb hfits)

omit [DecidableEq ι] in
theorem sized_new {sizes : ι → Nat} (hsizes : ∀ i, kCheapPrepend + sizes i < 2 ^ 64) :
    Sized { buffers := fun i => new (sizes i) } := by
  intro i
  dsimp only
  rw [new_raw (hsizes i)]
  refine ⟨Buffer.new (sizes i), rfl, ?_⟩
  rw [Buffer.new, List.length_replicate]
  exact hsizes i

theorem sized_of_run {sizes : ι → Nat} {es : List ((Nat → Bool) × BufferOp ι)}
    (hsizes : ∀ i, kCheapPrepend + sizes i < 2 ^ 64)
    (run : system.Run Admissible { buffers := fun i => new (sizes i) } es s) : Sized s := by
  refine run.invariant (fun h hadm hstep => ?_) (sized_new hsizes)
  cases hstep
  exact h.perform hadm

/-! ## What making room is for -/

/-- A call that is to leave room for `len` bytes throws and changes nothing, or leaves the room and the readable
bytes; either way the indices are in order and no assert has failed. -/
structure Grows (r : RawBuffer) (len : Nat) (g : Grown) : Prop where
  unchanged : g.threw = true → g.buffer = r
  room : g.threw = false → len ≤ writableBytes g.buffer
  readable : readableSpan g.buffer = readableSpan r
  reader_le : g.buffer.readerIndex ≤ g.buffer.writerIndex
  writer_le : g.buffer.writerIndex ≤ g.buffer.buffer.length
  asserts : g.buffer.failed = []

/-- `makeSpace` is called and moves the readable bytes to the front. -/
def Compacts (r : RawBuffer) (len : Nat) : Prop := writableBytes r < len ∧ tooSmall len r = false

/-- `ensureWritableBytes` compacts only where there is room for both, and never resizes below `writerIndex_`. -/
structure EnsuresWritable (r : RawBuffer) (len : Nat) (g : Grown) : Prop extends Grows r len g where
  compacted : Compacts r len → kCheapPrepend + readableBytes r + len ≤ r.buffer.length
  storage : r.writerIndex ≤ g.buffer.buffer.length

theorem Ends.grows {g : Grown} {b b' : Buffer} (h : Ends g b b') (hb : b.buffer.length < 2 ^ 64)
    (hb' : b'.buffer.length < 2 ^ 64) (hroom : len ≤ b'.writableBytes) (hspan : b'.readableSpan = b.readableSpan) :
    Grows b.raw len g := by
  obtain hthrew | hdone := h
  · rw [hthrew]
    exact ⟨fun _ => rfl, fun hno => (Bool.noConfusion hno), rfl, b.reader_le, b.writer_le, rfl⟩
  · rw [hdone]
    refine ⟨fun hno => (Bool.noConfusion hno), fun _ => ?_, ?_, b'.reader_le, b'.writer_le, rfl⟩
    · rwa [writableBytes_raw hb']
    · rw [readableSpan_raw hb', readableSpan_raw hb, hspan]

theorem ensuresWritable_raw (hb : b.buffer.length < 2 ^ 64) (hfits : Fits b.raw len) :
    EnsuresWritable b.raw len (ensureWritableBytes alloc len b.raw) := by
  have hends := ensureWritableBytes_raw alloc hb hfits
  refine ⟨hends.grows hb (ensureWritableBytes_lt hb hfits) (b.ensureWritableBytes len).property
    Buffer.readableSpan_ensureWritableBytes, ?_, ?_⟩
  · rintro ⟨hlen, hroom⟩
    rw [writableBytes_raw hb] at hlen
    rw [tooSmall_raw hb (hfits hlen).2, decide_eq_false_iff_not] at hroom
    rw [readableBytes_raw hb]
    have hreader := b.reader_le
    have hwriter := b.writer_le
    simp only [Buffer.writableBytes, Buffer.prependableBytes, Buffer.readableBytes, Buffer.raw] at *
    omega
  · obtain hthrew | hdone := hends
    · rw [hthrew]
      exact b.writer_le
    · rw [hdone]
      exact Nat.le_trans b.writer_le Buffer.le_length_ensureWritableBytes

theorem le_writableBytes_shrink : reserve ≤ (b.shrink reserve).writableBytes := by
  have hroom := ((Buffer.new kInitialSize).ensureWritableBytes (b.readableBytes + reserve)).property
  have hcopy : b.readableSpan.length ≤ b.readableBytes + reserve := by
    rw [Buffer.length_readableSpan]
    exact Nat.le_add_right _ _
  rw [Buffer.shrink, Buffer.writableBytes_append (Nat.le_trans hcopy hroom), Buffer.length_readableSpan]
  omega

/-- Whatever was done to the buffers before without a wrap, and whether or not there is memory:
`ensureWritableBytes(len)` and `shrink(reserve)` whose sums do not wrap make room or throw without effect, and so do
the calls that `shrink` makes on its other buffer. -/
theorem growth_safe {sizes : ι → Nat} {es : List ((Nat → Bool) × BufferOp ι)}
    (hsizes : ∀ i, kCheapPrepend + sizes i < 2 ^ 64)
    (run : system.Run Admissible { buffers := fun i => new (sizes i) } es s) (i : ι) (alloc : Nat → Bool) :
    (∀ len, Fits (s.buffers i) len →
      EnsuresWritable (s.buffers i) len (ensureWritableBytes alloc len (s.buffers i))) ∧
    ∀ reserve, FitsShrink (s.buffers i) reserve →
      Grows (s.buffers i) reserve (shrink alloc reserve (s.buffers i)) ∧
      (let needed := SizeT.add (readableBytes (s.buffers i)) reserve
       let other := ensureWritableBytes alloc needed (new kInitialSize)
       let readable := (readableSpan (s.buffers i)).length
       EnsuresWritable (new kInitialSize) needed other ∧
         (other.threw = false →
           EnsuresWritable other.buffer readable (ensureWritableBytes alloc readable other.buffer))) := by
  obtain ⟨b, hraw, hb⟩ := sized_of_run hsizes run i
  rw [hraw]
  refine ⟨fun len hfits => ensuresWritable_raw alloc hb hfits, fun reserve hfits => ⟨?_, ?_⟩⟩
  · exact (shrink_raw alloc hb hfits).grows hb (shrink_lt hfits) le_writableBytes_shrink Buffer.readableSpan_shrink
  · have hroom : Fits (Buffer.new kInitialSize).raw (b.readableBytes + reserve) := fits_new hfits
    have hsum : SizeT.add b.readableBytes reserve = b.readableBytes + reserve :=
      SizeT.add_of_lt (Nat.lt_of_le_of_lt (Nat.le_add_right _ _) hfits)
    have hnew : new kInitialSize = (Buffer.new kInitialSize).raw := new_raw (by decide)
    rw [readableBytes_raw hb, readableSpan_raw hb, hsum, hnew]
    refine ⟨ensuresWritable_raw alloc length_new hroom, fun hdone => ?_⟩
    obtain hthrew | hother := ensureWritableBytes_raw alloc length_new hroom
    · rw [hthrew] at hdone
      cases hdone
    · rw [hother]
      exact ensuresWritable_raw alloc (ensureWritableBytes_lt length_new hroom) fits_copy

/-- Memory for 20 bytes only: a buffer of 4 bytes is compacted to make room for 3, and throws where it would grow. -/
theorem growth_safe_compacted :
    ∃ s : RawBuffers Unit,
      system.Run Admissible { buffers := fun _ => new 4 }
          [(fun _ => true, .append () [1, 2, 3, 4]), (fun _ => true, .retrieve () 3)] s ∧
        EnsuresWritable (s.buffers ()) 3 (ensureWritableBytes (· ≤ 20) 3 (s.buffers ())) ∧
        Compacts (s.buffers ()) 3 ∧
        EnsuresWritable (s.buffers ()) 100 (ensureWritableBytes (· ≤ 20) 100 (s.buffers ())) ∧
        (ensureWritableBytes (· ≤ 20) 100 (s.buffers ())).threw = true ∧
        Grows (s.buffers ()) 2000 (shrink (fun _ => true) 2000 (s.buffers ())) := by
  refine Lib.Stepper.Run.replay rfl fun run => ?_
  have hsizes : ∀ _ : Unit, kCheapPrepend + 4 < 2 ^ 64 := fun _ => by decide
  have hlittle := (growth_safe hsizes run () (· ≤ 20)).1
  have hshrink := (growth_safe hsizes run () (fun _ => true)).2
  exact ⟨hlittle 3 (by decide), ⟨by decide, by decide⟩, hlittle 100 (by decide), by decide,
    (hshrink 2000 (by decide)).1⟩

/-- A fresh buffer is asked for 2^64 − 1 bytes: the sum with `kCheapPrepend` is 7, so the buffer is compacted though
there is nothing in front, and 1024 bytes are writable. With 12 bytes in a buffer that is full, 2^64 − 9 more resize
the storage to 11 bytes, below `writerIndex_`; and `shrink(2^64 − 5)` reserves 1012 bytes. -/
theorem growth_wraps :
    ∃ s : RawBuffers Bool,
      system.Run (fun s e => s.InRange e.2) { buffers := fun i => if i then new 12 else new kInitialSize }
          [(fun _ => true, .append true (List.replicate 12 7))] s ∧
        (let fresh := ensureWritableBytes (fun _ => true) (2 ^ 64 - 1) (s.buffers false)
         fresh.threw = false ∧ writableBytes fresh.buffer = 1024 ∧
           fresh.buffer.failed = [.ensureWritableBytes, .makeSpaceReader]) ∧
        (let resized := ensureWritableBytes (fun _ => true) (2 ^ 64 - 9) (s.buffers true)
         resized.threw = false ∧ resized.buffer.buffer.length = 11 ∧ resized.buffer.writerIndex = 20) ∧
        (let shrunk := shrink (fun _ => true) (2 ^ 64 - 5) (s.buffers true)
         shrunk.threw = false ∧ writableBytes shrunk.buffer = 1012) :=
  Lib.Stepper.Run.replay rfl fun _ => by decide +kernel

end WordBuffer
end Muduo
