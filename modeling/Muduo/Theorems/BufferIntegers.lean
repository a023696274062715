import Mathlib.Algebra.Group.Int.Defs
import Muduo.BufferIntegers
import Muduo.Theorems.BufferRefinement

/-! # Integers survive the buffer

Every typed function is the untyped one on the encoding of the value, on either kind of host, so what holds of the
readable bytes gives back the values. -/

namespace Muduo
open Lib

namespace RawBuffer
variable {native : Endian} {size w : Nat} {byteSwap : BitVec w → BitVec w} {b : Buffer} {r : RawBuffer} {rest : Bytes}

/-- The two's complement of an integer is the number that its bits are. -/
theorem toNat_toInt_mod (x : BitVec w) (hw : w = 8 * size) : (x.toInt % 256 ^ size).toNat = x.toNat := by
  have hpow : (256 : Int) ^ size = ((2 ^ w : Nat) : Int) := by
    have hbyte : (2 : Nat) ^ 8 = 256 := rfl
    rw [hw, Nat.pow_mul, hbyte, Int.natCast_pow]
    rfl
  rw [hpow, ← BitVec.toNat_ofInt, BitVec.ofInt_toInt]

/-- A byte need not be swapped. -/
theorem reversesBytes_id : ReversesBytes 1 (id : BitVec 8 → BitVec 8) := fun _ => rfl

theorem hostToNetwork_id (x : BitVec w) : hostToNetwork id native x = x := by
  cases native <;> rfl

/-! ## The functions of any size -/

theorem objectBytes_eq (h : ReversesBytes size byteSwap) (hw : w = 8 * size) (x : BitVec w) :
    objectBytes native size (hostToNetwork byteSwap native x) = bigEndian size (x.toInt % 256 ^ size).toNat := by
  rw [h.objectBytes_hostToNetwork, toNat_toInt_mod x hw]

theorem readInt_eq (h : ReversesBytes size byteSwap) (hw : w = 8 * size) {x : BitVec w}
    (hspan : b.readableSpan = bigEndian size (x.toInt % 256 ^ size).toNat ++ rest) :
    readInt size (peekInt native size (hostToNetwork byteSwap)) b.raw = (x, (b.retrieve size).raw) := by
  have hsize : size ≤ b.readableBytes := by
    rw [← Buffer.length_readableSpan, hspan, List.length_append, length_bigEndian]
    exact Nat.le_add_right _ _
  have hbytes : slice b.buffer b.readerIndex (b.readerIndex + size) = bigEndian size x.toNat := by
    have hsub : b.subspan 0 size = slice b.readableSpan 0 (0 + size) := Buffer.subspan_eq 0 (by omega)
    rw [Buffer.subspan, Nat.add_zero, Nat.zero_add, hspan, toNat_toInt_mod x hw] at hsub
    rw [hsub, slice, List.drop_zero, Nat.sub_zero]
    exact List.take_left' (length_bigEndian _ _)
  have hcheck : b.raw.check (.peekInt size) (size ≤ b.raw.readableBytes) = b.raw := check_of hsize
  simp only [readInt, peekInt, hcheck]
  rw [retrieve_raw hsize]
  simp only [Buffer.raw, hbytes]
  rw [h.networkToHost_ofObjectBytes hw]

/-! ## The functions of each type -/

variable {v : TypedInt} {values : List TypedInt}

theorem stored_eq_encoding : v.stored native = v.encoding := by
  cases v with
  | int8 x =>
    have hbytes : objectBytes native 1 (hostToNetwork id native x) = _ := objectBytes_eq reversesBytes_id rfl x
    rwa [hostToNetwork_id] at hbytes
  | int16 x => exact objectBytes_eq reversesBytes_byteSwap16 rfl x
  | int32 x => exact objectBytes_eq reversesBytes_byteSwap32 rfl x
  | int64 x => exact objectBytes_eq reversesBytes_byteSwap64 rfl x

theorem appendTyped_eq : r.appendTyped native v = r.append v.encoding :=
  calc r.appendTyped native v = r.append (v.stored native) := by cases v <;> rfl
    _ = r.append v.encoding := by rw [stored_eq_encoding]

theorem prependTyped_eq : r.prependTyped native v = r.prepend v.encoding :=
  calc r.prependTyped native v = r.prepend (v.stored native) := by cases v <;> rfl
    _ = r.prepend v.encoding := by rw [stored_eq_encoding]

theorem length_encoding : v.encoding.length = v.type.size := length_bigEndian _ _

theorem readTyped_raw (hspan : b.readableSpan = v.encoding ++ rest) :
    b.raw.readTyped native v.type = (v, (b.retrieve v.type.size).raw) := by
  cases v with
  | int8 x =>
    have hpeek : peekInt8 native b.raw = peekInt native 1 (hostToNetwork id) b.raw := by
      rw [peekInt, hostToNetwork_id]
      rfl
    have hread : readInt 1 (peekInt native 1 (hostToNetwork id)) b.raw = _ := readInt_eq reversesBytes_id rfl hspan
    rw [readInt, ← hpeek] at hread
    exact congrArg (Prod.map TypedInt.int8 id) hread
  | int16 x => exact congrArg (Prod.map TypedInt.int16 id) (readInt_eq reversesBytes_byteSwap16 rfl hspan)
  | int32 x => exact congrArg (Prod.map TypedInt.int32 id) (readInt_eq reversesBytes_byteSwap32 rfl hspan)
  | int64 x => exact congrArg (Prod.map TypedInt.int64 id) (readInt_eq reversesBytes_byteSwap64 rfl hspan)

theorem readableSpan_retrieve_encoding (hspan : b.readableSpan = v.encoding ++ rest) :
    (b.retrieve v.type.size).readableSpan = rest := by
  rw [Buffer.readableSpan_retrieve, hspan, ← length_encoding, List.drop_left]

/-! ## Sequences of values -/

theorem appendAll_raw (native : Endian) (values : List TypedInt) (b : Buffer) :
    ∃ b' : Buffer, b.raw.appendAll native values = b'.raw ∧
      b'.readableSpan = b.readableSpan ++ values.flatMap TypedInt.encoding := by
  induction values generalizing b with
  | nil => exact ⟨b, rfl, (List.append_nil _).symm⟩
  | cons v values ih =>
    obtain ⟨b', hraw, hspan⟩ := ih (b.append v.encoding)
    refine ⟨b', ?_, ?_⟩
    · rw [← hraw, ← append_raw]
      exact congrArg (appendAll native values) appendTyped_eq
    · rw [hspan, Buffer.readableSpan_append, List.flatMap_cons, List.append_assoc]

theorem readAll_raw (native : Endian) (hspan : b.readableSpan = values.flatMap TypedInt.encoding ++ rest) :
    ∃ b' : Buffer, b.raw.readAll native (values.map TypedInt.type) = (values, b'.raw) ∧ b'.readableSpan = rest := by
  induction values generalizing b with
  | nil => exact ⟨b, rfl, hspan⟩
  | cons v values ih =>
    rw [List.flatMap_cons, List.append_assoc] at hspan
    obtain ⟨b', hread, hrest⟩ := ih (readableSpan_retrieve_encoding hspan)
    refine ⟨b', ?_, hrest⟩
    simp only [List.map_cons, readAll, readTyped_raw hspan, hread]

theorem readTyped_prependTyped (native : Endian) (h : v.type.size ≤ b.prependableBytes) :
    (b.raw.prependTyped native v).readableSpan = v.encoding ++ b.readableSpan ∧
      ∃ b' : Buffer, (b.raw.prependTyped native v).readTyped native v.type = (v, b'.raw) ∧
        b'.readableSpan = b.readableSpan := by
  rw [← length_encoding] at h
  have hspan := Buffer.readableSpan_prepend h
  rw [prependTyped_eq, prepend_raw h, raw_readableSpan, readTyped_raw hspan]
  exact ⟨hspan, _, rfl, readableSpan_retrieve_encoding hspan⟩

end RawBuffer

namespace RawBuffers
variable {ι : Type} [DecidableEq ι]

/-- On either kind of host, whatever was done to the buffers before: integers of any types appended to an empty
buffer are read back in order and leave it empty, one put in front is read back and leaves the rest, no assert
fails, and what is stored is the two's complement with the most significant byte first; the swaps behind it
reverse the bytes. -/
theorem integers_survive {sizes : ι → Nat} {ops : List (BufferOp ι)} {s : RawBuffers ι}
    (run : system.Run InRange (new sizes) ops s) (i : ι) (native : Endian) :
    (∀ values : List TypedInt, (s.buffers i).readableBytes = 0 →
      let r := (s.buffers i).appendAll native values
      r.readableSpan = values.flatMap TypedInt.encoding ∧
        ∃ r' : RawBuffer, r.readAll native (values.map TypedInt.type) = (values, r') ∧ r'.readableBytes = 0 ∧
          r'.failed = []) ∧
    (∀ value : TypedInt, value.type.size ≤ (s.buffers i).prependableBytes →
      let r := (s.buffers i).prependTyped native value
      r.readableSpan = value.encoding ++ (s.buffers i).readableSpan ∧
        ∃ r' : RawBuffer, r.readTyped native value.type = (value, r') ∧
          r'.readableSpan = (s.buffers i).readableSpan ∧ r'.failed = []) ∧
    (∀ value : TypedInt, value.stored native = value.encoding) ∧
    (∀ x, byteSwap16 (byteSwap16 x) = x ∧ bigEndian 2 (byteSwap16 x).toNat = (bigEndian 2 x.toNat).reverse) ∧
    (∀ x, byteSwap32 (byteSwap32 x) = x ∧ bigEndian 4 (byteSwap32 x).toNat = (bigEndian 4 x.toNat).reverse) ∧
    (∀ x, byteSwap64 (byteSwap64 x) = x ∧ bigEndian 8 (byteSwap64 x).toNat = (bigEndian 8 x.toNat).reverse) := by
  obtain ⟨b, hraw, -⟩ := (refines_of_run run).each i
  rw [hraw]
  refine ⟨fun values hempty => ?_, fun value hroom => ?_, fun value => RawBuffer.stored_eq_encoding, fun x => ?_,
    fun x => ?_, fun x => ?_⟩
  · have hnil : b.readableSpan = [] := Buffer.readableBytes_eq_zero.mp hempty
    obtain ⟨b', happend, hspan⟩ := RawBuffer.appendAll_raw native values b
    rw [hnil, List.nil_append, ← List.append_nil (values.flatMap _)] at hspan
    obtain ⟨b'', hread, hrest⟩ := RawBuffer.readAll_raw native hspan
    refine ⟨?_, b''.raw, ?_, Buffer.readableBytes_eq_zero.mpr hrest, rfl⟩
    · rw [happend, RawBuffer.raw_readableSpan, hspan, List.append_nil]
    · rw [happend, hread]
  · obtain ⟨hspan, b', hread, hrest⟩ := RawBuffer.readTyped_prependTyped native hroom
    rw [RawBuffer.raw_readableSpan]
    exact ⟨hspan, b'.raw, hread, by rw [RawBuffer.raw_readableSpan, hrest], rfl⟩
  · exact ⟨reversesBytes_byteSwap16.involution rfl x, reversesBytes_byteSwap16 x⟩
  · exact ⟨reversesBytes_byteSwap32.involution rfl x, reversesBytes_byteSwap32 x⟩
  · exact ⟨reversesBytes_byteSwap64.involution rfl x, reversesBytes_byteSwap64 x⟩

/-- Four integers for which a buffer has to grow, and a length put in front of the data of another. -/
theorem integers_survive_grown :
    ∃ s : RawBuffers Bool, system.Run InRange (new fun _ => 4)
        [.append true [1, 2], .retrieve true 2, .append false [7]] s ∧
      (∃ r, ((s.buffers true).appendAll .little [.int16 (-2), .int64 0x0102030405060708, .int8 (-1), .int32 5]).readAll
          .little [.int16, .int64, .int8, .int32] =
        ([.int16 (-2), .int64 0x0102030405060708, .int8 (-1), .int32 5], r) ∧ r.readableBytes = 0) ∧
      ((s.buffers false).prependTyped .little (.int32 1)).readableSpan = [0, 0, 0, 1, 7] := by
  refine Lib.Stepper.Run.replay rfl fun run => ?_
  obtain ⟨hsequence, -⟩ := integers_survive run true .little
  obtain ⟨-, r, hread, hempty, -⟩ := hsequence
    [.int16 (-2), .int64 0x0102030405060708, .int8 (-1), .int32 5] rfl
  obtain ⟨-, hprepend, -⟩ := integers_survive run false .little
  exact ⟨⟨r, hread, hempty⟩, (hprepend (.int32 1) (by decide)).1⟩

end RawBuffers
end Muduo
