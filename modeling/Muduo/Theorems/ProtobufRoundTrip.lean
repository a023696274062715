import Muduo.Theorems.ProtobufFraming

/-! # What is sent is received

`fillEmptyBuffer` writes a frame that the reader takes off the front of a stream in one turn, or refuses for its
length. -/

namespace Muduo.ProtobufCodec
open Lib
variable {M : Type} {c : ProtobufCodec M} {m : M} {ms : List M} {rest : Bytes}

/-! ## The bytes of a frame -/

def body (c : ProtobufCodec M) (m : M) : Bytes :=
  c.tag ++ c.serialize m ++ bigEndian 4 (checksum (c.tag ++ c.serialize m)).toNat

def messageLen (c : ProtobufCodec M) (m : M) : Nat := c.tag.length + (c.serialize m).length + kChecksumLen

@[simp] theorem length_body : (c.body m).length = c.messageLen m := by
  rw [body, List.length_append, List.length_append, length_bigEndian]
  rfl

theorem readableSpan_fillBody {buf : Buffer} (h : buf.readableSpan = []) :
    (c.fillBody m buf).readableSpan = c.body m := by
  have hserialized : (c.serializeToBuffer m (buf.append c.tag)).readableSpan = c.tag ++ c.serialize m := by
    rw [serializeToBuffer, Buffer.readableSpan_write, Buffer.readableSpan_ensureWritableBytes,
      Buffer.readableSpan_append, h, List.nil_append]
  rw [fillBody, Buffer.appendInt32, Buffer.readableSpan_append, hserialized, body]

theorem readableSpan_fillEmptyBuffer {buf : Buffer} (h : buf.readableSpan = [])
    (hroom : kHeaderLen ≤ buf.prependableBytes) :
    (c.fillEmptyBuffer m buf hroom).readableSpan = bigEndian 4 (c.messageLen m) ++ c.body m := by
  have hbody := readableSpan_fillBody (c := c) (m := m) h
  have hlen : (c.fillBody m buf).readableBytes = c.messageLen m := by
    rw [← Buffer.length_readableSpan, hbody, length_body]
  rw [fillEmptyBuffer, Buffer.readableSpan_prepend, hbody, hlen]

/-- A frame, as it is put into a new buffer. -/
def frame (c : ProtobufCodec M) (size : Nat) (m : M) : Bytes :=
  (c.fillEmptyBuffer m (.new size) (show 4 ≤ 8 by decide)).readableSpan

theorem frame_eq {size : Nat} : c.frame size m = bigEndian 4 (c.messageLen m) ++ c.body m :=
  readableSpan_fillEmptyBuffer Buffer.readableSpan_new _

/-! ## The reader on a frame -/

theorem asInt32_header {n : Nat} : asInt32 (bigEndian 4 n ++ rest) = .ofNat 32 n := by
  have htake : (bigEndian 4 n ++ rest).take 4 = bigEndian 4 n := List.take_left' (length_bigEndian _ _)
  apply BitVec.eq_of_toNat_eq
  rw [asInt32, htake, ofBigEndian_bigEndian, BitVec.toNat_ofNat, BitVec.toNat_ofNat]
  exact Nat.mod_mod _ _

theorem kMinMessageLen_le : c.kMinMessageLen ≤ c.messageLen m := by
  simp only [kMinMessageLen, messageLen]
  omega

/-- The length of a message that is too long does not come out as one that is allowed. -/
theorem header_of_long (h : kMaxMessageLen < c.messageLen m) :
    (kMaxMessageLen : Int) < (BitVec.ofNat 32 (c.messageLen m)).toInt ∨
      (BitVec.ofNat 32 (c.messageLen m)).toInt < c.kMinMessageLen := by
  have htag := c.tag_fits
  have hsize := c.size_fits m
  simp only [messageLen, kMinMessageLen, kHeaderLen, kChecksumLen, kMaxMessageLen] at *
  rw [BitVec.toInt_ofNat', Int.bmod_def]
  split <;> omega

theorem header_of_short {n : Nat} (h : n ≤ kMaxMessageLen) : (BitVec.ofNat 32 n).toInt = n := by
  simp only [kMaxMessageLen] at h
  rw [BitVec.toInt_ofNat', Int.bmod_def]
  split <;> omega

theorem validateChecksum_append {l trailer : Bytes} (h : trailer.length = kChecksumLen) :
    validateChecksum (l ++ trailer) = decide (checksum l = asInt32 trailer) := by
  have hlong : ¬(l ++ trailer).length < kChecksumLen := by
    rw [List.length_append]
    omega
  have hcut : (l ++ trailer).length - kChecksumLen = l.length := by
    rw [List.length_append]
    omega
  simp only [validateChecksum, if_neg hlong, hcut, List.take_left, List.drop_left]

theorem validateChecksum_body : validateChecksum (c.body m) = true := by
  have hsum : asInt32 (bigEndian 4 (checksum (c.tag ++ c.serialize m)).toNat) = checksum (c.tag ++ c.serialize m) := by
    apply BitVec.eq_of_toNat_eq
    rw [asInt32, List.take_of_length_le (Nat.le_of_eq (length_bigEndian _ _)), ofBigEndian_bigEndian, BitVec.toNat_ofNat]
    have := (checksum (c.tag ++ c.serialize m)).isLt
    omega
  rw [body, validateChecksum_append (length_bigEndian 4 _), hsum, decide_eq_true_eq]

theorem parse_body (hparse : ∀ m, c.parseFromArray (c.serialize m) = some m) : c.parse (c.body m) = .ok m := by
  have htag : (c.body m).take c.tag.length = c.tag := by rw [body, List.append_assoc, List.take_left]
  have hlong : ¬((c.body m).length < c.tag.length + kChecksumLen ∨ (c.body m).take c.tag.length ≠ c.tag) := by
    rintro (hshort | htag')
    · rw [length_body, messageLen] at hshort
      omega
    · exact htag' htag
  have hpayload : slice (c.body m) c.tag.length ((c.body m).length - kChecksumLen) = c.serialize m := by
    have hlen : (c.body m).length - kChecksumLen - c.tag.length = (c.serialize m).length := by
      rw [length_body, messageLen]
      omega
    rw [slice, hlen, body, List.append_assoc, List.drop_left, List.take_left]
  simp only [parse, validateChecksum_body, Bool.not_true, Bool.false_eq_true, if_false, if_neg hlong, hpayload, hparse]

/-- A length in the range and that many bytes in front of a stream, with the parts that the loop looks at. -/
theorem verdict_of_header {bytes : Bytes} (hmin : c.kMinMessageLen ≤ bytes.length)
    (hmax : bytes.length ≤ kMaxMessageLen) (rest : Bytes) :
    c.verdict (bigEndian 4 bytes.length ++ bytes ++ rest) =
      if c.drops (bigEndian 4 bytes.length ++ bytes) then .frame (kHeaderLen + bytes.length) none
      else
        match c.parse bytes with
        | .ok m => .frame (kHeaderLen + bytes.length) (some m)
        | .error code => .error code := by
  have hframe : (bigEndian 4 bytes.length ++ bytes).length = kHeaderLen + bytes.length := by
    rw [List.length_append, length_bigEndian]
    rfl
  have hhead : (asInt32 (bigEndian 4 bytes.length ++ bytes ++ rest)).toInt = bytes.length := by
    rw [List.append_assoc, asInt32_header, header_of_short hmax]
  have hlong : c.kMinMessageLen + kHeaderLen ≤ (bigEndian 4 bytes.length ++ bytes ++ rest).length := by
    rw [List.length_append, hframe]
    omega
  have hvalid : ¬((kMaxMessageLen : Int) < (bytes.length : Int) ∨ (bytes.length : Int) < c.kMinMessageLen) := by omega
  have hfull : ¬(bigEndian 4 bytes.length ++ bytes ++ rest).length < kHeaderLen + bytes.length := by
    rw [List.length_append, hframe]
    omega
  have htake : (bigEndian 4 bytes.length ++ bytes ++ rest).take (kHeaderLen + bytes.length) =
      bigEndian 4 bytes.length ++ bytes := List.take_left' hframe
  have hbody : slice (bigEndian 4 bytes.length ++ bytes ++ rest) kHeaderLen (kHeaderLen + bytes.length) = bytes := by
    rw [slice_append_right (Nat.le_of_eq hframe.symm), slice, Nat.add_sub_cancel_left]
    have hdrop : (bigEndian 4 bytes.length ++ bytes).drop kHeaderLen = bytes := List.drop_left' (length_bigEndian _ _)
    rw [hdrop, List.take_length]
  cases hparse : c.parse bytes <;>
    simp only [verdict, if_pos hlong, hhead, if_neg hvalid, Int.toNat_natCast, if_neg hfull, htake, hbody, hparse]

theorem verdict_frame (hraw : c.rawCb = none) (hparse : ∀ m, c.parseFromArray (c.serialize m) = some m)
    (hlen : c.messageLen m ≤ kMaxMessageLen) {size : Nat} (rest : Bytes) :
    c.verdict (c.frame size m ++ rest) = .frame (c.frame size m).length (some m) := by
  have hframe : (c.frame size m).length = kHeaderLen + (c.body m).length := by
    rw [frame_eq, List.length_append, length_bigEndian]
    rfl
  have hmin : c.kMinMessageLen ≤ (c.body m).length := length_body ▸ kMinMessageLen_le
  have hmax : (c.body m).length ≤ kMaxMessageLen := length_body ▸ hlen
  have hverdict := verdict_of_header hmin hmax rest
  rw [hframe, frame_eq, ← length_body, hverdict]
  simp only [drops, hraw, Bool.false_eq_true, if_false, parse_body hparse]

theorem verdict_long (hlen : kMaxMessageLen < c.messageLen m) {size : Nat} (rest : Bytes) :
    c.verdict (c.frame size m ++ rest) = .error .kInvalidLength := by
  have hhead : asInt32 (c.frame size m ++ rest) = .ofNat 32 (c.messageLen m) := by
    rw [frame_eq, List.append_assoc, asInt32_header]
  have hmin : c.kMinMessageLen + kHeaderLen ≤ (c.frame size m ++ rest).length := by
    have := kMinMessageLen_le (c := c) (m := m)
    rw [List.length_append, frame_eq, List.length_append, length_bigEndian, length_body]
    simp only [kHeaderLen]
    omega
  simp only [verdict, if_pos hmin, hhead, if_pos (header_of_long hlen)]

/-! ## Whole streams -/

/-- Each message with the size of the buffer it is sent in. -/
abbrev Sent (M : Type) := List (M × Nat)

/-- What is on the wire. -/
def wire (c : ProtobufCodec M) (sent : Sent M) : Bytes := sent.flatMap fun x => c.frame x.2 x.1

theorem run_wire (hraw : c.rawCb = none) (hparse : ∀ m, c.parseFromArray (c.serialize m) = some m) {sent : Sent M}
    (hlen : ∀ x ∈ sent, c.messageLen x.1 ≤ kMaxMessageLen) (ms : List M) (rest : Bytes) :
    c.reader.run ms (c.wire sent ++ rest) = c.reader.run ((sent.map Prod.fst).reverse ++ ms) rest := by
  induction sent generalizing ms with
  | nil => rfl
  | cons x sent ih =>
    have hfirst := hlen x List.mem_cons_self
    have hrest := ih fun y hy => hlen y (List.mem_cons_of_mem _ hy)
    rw [wire, List.flatMap_cons, List.append_assoc, run_frame (verdict_frame hraw hparse hfirst _), List.drop_left]
    rw [← wire, hrest]
    simp

/-- However the frames of some messages are cut into chunks, exactly the messages are delivered, and nothing is left
in the buffer. A message that is too long is refused for its length, after those before it. -/
theorem round_trip (hraw : c.rawCb = none) (hparse : ∀ m, c.parseFromArray (c.serialize m) = some m) (size : Nat)
    (sent : Sent M) (hlen : ∀ x ∈ sent, c.tag.length + (c.serialize x.1).length + kChecksumLen ≤ kMaxMessageLen)
    (chunks : List Bytes) :
    (chunks.flatten = c.wire sent →
      (chunks.foldl c.receive ⟨.new size, []⟩).events.reverse = (sent.map Prod.fst).map .message ∧
        (chunks.foldl c.receive ⟨.new size, []⟩).buf.readableSpan = []) ∧
      ∀ (m : M) (n : Nat) (rest : Bytes),
        kMaxMessageLen < c.tag.length + (c.serialize m).length + kChecksumLen →
        chunks.flatten = c.wire sent ++ (c.frame n m ++ rest) →
          ∃ k, (chunks.foldl c.receive ⟨.new size, []⟩).events.reverse =
            (sent.map Prod.fst).map .message ++ List.replicate (k + 1) (.error .kInvalidLength) := by
  have hfollows := c.follows_chunks size chunks
  refine ⟨fun hcut => ?_, fun m n rest hlong hcut => ?_⟩
  · have hrun := run_wire hraw hparse hlen [] []
    have hnil : c.verdict [] = .incomplete := by simp [verdict, kHeaderLen]
    rw [List.append_nil, List.append_nil, run_incomplete hnil] at hrun
    rw [hcut, hrun] at hfollows
    have hevents := hfollows.events
    simp only at hevents
    refine ⟨?_, hfollows.rest⟩
    rw [hevents, List.map_reverse, List.reverse_reverse]
  · have hrun := run_wire hraw hparse hlen [] (c.frame n m ++ rest)
    rw [run_error (verdict_long hlong rest), List.append_nil] at hrun
    rw [hcut, hrun] at hfollows
    have hevents := hfollows.events
    simp only at hevents
    obtain ⟨k, hevents⟩ := hevents
    refine ⟨k, ?_⟩
    rw [hevents, List.reverse_append, List.map_reverse, List.reverse_reverse, List.reverse_replicate]

theorem zeros_size (n : Fin (2 ^ 27)) : (zeros.serialize n).length = n := List.length_replicate

theorem zeros_parse (n : Fin (2 ^ 27)) : zeros.parseFromArray (zeros.serialize n) = some n := by
  simp [zeros]

theorem flatten_bytewise (l : Bytes) : (l.map ([·])).flatten = l := by
  rw [← List.flatMap_def]
  exact List.flatMap_singleton' l

/-- Two messages arrive byte by byte, then one that is a byte too long for its tag and checksum. -/
theorem round_trip_bytewise :
    (((zeros.wire [(3, 16), (0, 0)]).map ([·])).foldl zeros.receive ⟨.new 4, []⟩).events.reverse =
        [.message 3, .message 0] ∧
      ∃ k, (((zeros.wire [(3, 16), (0, 0)] ++ (zeros.frame 0 67108857 ++ [])).map ([·])).foldl
          zeros.receive ⟨.new 4, []⟩).events.reverse =
        [.message 3, .message 0] ++ List.replicate (k + 1) (.error .kInvalidLength) := by
  have hlen : ∀ x ∈ [((3 : Fin (2 ^ 27)), 16), (0, 0)],
      zeros.tag.length + (zeros.serialize x.1).length + kChecksumLen ≤ kMaxMessageLen := by
    simp only [zeros_size]
    decide
  have hlong : kMaxMessageLen < zeros.tag.length + (zeros.serialize 67108857).length + kChecksumLen := by
    rw [zeros_size]
    decide
  constructor
  · exact ((round_trip rfl zeros_parse 4 _ hlen _).1 (flatten_bytewise _)).1
  · exact (round_trip rfl zeros_parse 4 _ hlen _).2 67108857 0 [] hlong (flatten_bytewise _)

end Muduo.ProtobufCodec
