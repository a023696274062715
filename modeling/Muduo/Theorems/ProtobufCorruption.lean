import Mathlib.Algebra.GroupWithZero.Nat
import Muduo.Theorems.ProtobufRoundTrip

/-! # A corrupted byte is caught

The low half of the checksum is the sum of the bytes modulo a prime above 255, so it does not survive the change of
one byte; and different bytes in the place of the checksum are a different checksum. -/

namespace Muduo.ProtobufCodec
open Lib
variable {M : Type} {c : ProtobufCodec M} {m : M} {l : Bytes} {x y : UInt8} {k size : Nat}

/-! ## The checksum -/

def byteSum (l : Bytes) : Nat := (l.map (·.toNat)).sum

theorem byteSum_set (hx : l[k]? = some x) (y : UInt8) : byteSum (l.set k y) + x.toNat = byteSum l + y.toNat := by
  obtain ⟨hk, rfl⟩ := List.getElem?_eq_some_iff.mp hx
  have hsplit : byteSum l = byteSum (l.take k ++ l[k] :: l.drop (k + 1)) := by
    rw [← List.drop_eq_getElem_cons hk, List.take_append_drop]
  rw [hsplit, List.set_eq_take_append_cons_drop, if_pos hk]
  simp only [byteSum, List.map_append, List.map_cons, List.sum_append, List.sum_cons]
  omega

theorem adler32_low (l : Bytes) : adler32 l % 65536 = (1 + byteSum l) % 65521 := by
  -- the fold with any pair in front of it, for the induction
  have hfold : ∀ s : Nat × Nat, s.1 < 65521 →
      (l.foldl (fun s x => ((s.1 + x.toNat) % 65521, (s.2 + (s.1 + x.toNat) % 65521) % 65521)) s).1 =
        (s.1 + byteSum l) % 65521 := by
    induction l with
    | nil =>
      intro s hs
      exact (Nat.mod_eq_of_lt hs).symm
    | cons x l ih =>
      intro s hs
      rw [List.foldl_cons, ih _ (Nat.mod_lt _ (by decide))]
      simp only [byteSum, List.map_cons, List.sum_cons]
      omega
  have hlow := hfold (1, 0) (by decide)
  simp only at hlow
  simp only [adler32]
  omega

theorem checksum_set (hx : l[k]? = some x) (hy : y ≠ x) : checksum (l.set k y) ≠ checksum l := by
  intro hsame
  have hnat := congrArg BitVec.toNat hsame
  simp only [checksum, BitVec.toNat_ofNat] at hnat
  have hlow : (1 + byteSum (l.set k y)) % 65521 = (1 + byteSum l) % 65521 := by
    rw [← adler32_low, ← adler32_low]
    omega
  have hsum := byteSum_set hx y
  have hbyte : y.toNat ≠ x.toNat := fun h => hy (UInt8.toNat_inj.mp h)
  have := x.toNat_lt
  have := y.toNat_lt
  omega

theorem asInt32_inj {l l' : Bytes} (hlen : l.length = 4) (hlen' : l'.length = 4) (h : asInt32 l = asInt32 l') :
    l = l' := by
  have hlt := ofBigEndian_lt l
  have hlt' := ofBigEndian_lt l'
  rw [hlen] at hlt
  rw [hlen'] at hlt'
  have hnat := congrArg BitVec.toNat h
  rw [asInt32, asInt32, List.take_of_length_le (Nat.le_of_eq hlen), List.take_of_length_le (Nat.le_of_eq hlen'),
    BitVec.toNat_ofNat, BitVec.toNat_ofNat] at hnat
  exact ofBigEndian_inj (hlen.trans hlen'.symm) (by omega)

/-- The byte is one that the checksum is of, or one of the checksum. -/
theorem validateChecksum_set (hx : (c.body m)[k]? = some x) (hy : y ≠ x) :
    validateChecksum ((c.body m).set k y) = false := by
  have htrailer := length_bigEndian 4 (checksum (c.tag ++ c.serialize m)).toNat
  have hgood := validateChecksum_body (c := c) (m := m)
  rw [body] at hx hgood ⊢
  generalize bigEndian 4 (checksum (c.tag ++ c.serialize m)).toNat = trailer at htrailer hx hgood ⊢
  rw [validateChecksum_append htrailer, decide_eq_true_eq] at hgood
  rcases Nat.lt_or_ge k (c.tag ++ c.serialize m).length with hk | hk
  · rw [List.getElem?_append_left hk] at hx
    rw [List.set_append_left _ _ hk, validateChecksum_append htrailer, decide_eq_false_iff_not, ← hgood]
    exact checksum_set hx hy
  · rw [List.getElem?_append_right hk] at hx
    have hlen : (trailer.set (k - (c.tag ++ c.serialize m).length) y).length = 4 := by
      rw [List.length_set, htrailer]
    rw [List.set_append_right _ _ hk, validateChecksum_append hlen, decide_eq_false_iff_not, hgood]
    intro hsame
    -- the bytes of two equal checksums agree at the place of the change
    have hbytes := asInt32_inj htrailer hlen hsame
    rw [hbytes] at hx
    obtain ⟨hk', hx⟩ := List.getElem?_eq_some_iff.mp hx
    rw [List.getElem_set_self] at hx
    exact hy hx

/-! ## The reader -/

/-- A corrupted frame is taken by the raw callback or refused for its checksum. -/
theorem verdict_set (hlen : c.messageLen m ≤ kMaxMessageLen) (hk : kHeaderLen ≤ k)
    (hx : (c.frame size m)[k]? = some x) (hy : y ≠ x) (rest : Bytes) :
    c.verdict ((c.frame size m).set k y ++ rest) =
      if c.drops ((c.frame size m).set k y) then .frame (c.frame size m).length none else .error .kCheckSumError := by
  have hhead : (bigEndian 4 (c.messageLen m)).length ≤ k := (length_bigEndian 4 _).symm ▸ hk
  have hbody : ((c.body m).set (k - kHeaderLen) y).length = c.messageLen m := by rw [List.length_set, length_body]
  have hset : (c.frame size m).set k y =
      bigEndian 4 ((c.body m).set (k - kHeaderLen) y).length ++ (c.body m).set (k - kHeaderLen) y := by
    rw [frame_eq, List.set_append_right _ _ hhead, hbody, length_bigEndian]
    rfl
  have hframe : (c.frame size m).length = kHeaderLen + ((c.body m).set (k - kHeaderLen) y).length := by
    rw [frame_eq, List.length_append, length_bigEndian, hbody, length_body]
    rfl
  have hbyte : (c.body m)[k - kHeaderLen]? = some x := by
    rw [frame_eq, List.getElem?_append_right hhead, length_bigEndian] at hx
    exact hx
  have hparse : c.parse ((c.body m).set (k - kHeaderLen) y) = .error .kCheckSumError := by
    rw [parse, validateChecksum_set hbyte hy]
    rfl
  rw [hframe, hset, verdict_of_header (hbody ▸ kMinMessageLen_le) (hbody ▸ hlen), hparse]

/-- A frame that has come to the front of the buffer with a byte behind its length changed is refused for its
checksum, unless the raw callback takes it: no message is delivered, and the buffer stays as it is. -/
theorem onMessage_corrupted (hlen : c.messageLen m ≤ kMaxMessageLen) (hk : kHeaderLen ≤ k)
    (hx : (c.frame size m)[k]? = some x) (hy : y ≠ x) (hraw : c.drops ((c.frame size m).set k y) = false)
    {buf : Buffer} {rest : Bytes} (hbuf : buf.readableSpan = (c.frame size m).set k y ++ rest)
    (events : List (CodecEvent M)) :
    c.onMessage ⟨buf, events⟩ = ⟨buf, .error .kCheckSumError :: events⟩ := by
  have hverdict := verdict_set hlen hk hx hy rest
  rw [hraw, ← hbuf] at hverdict
  rw [onMessage_verdict]
  simp only [hverdict, Bool.false_eq_true, if_false]

/-- A new buffer that a frame with one byte changed has been read into. -/
def received (c : ProtobufCodec M) (m : M) (k : Nat) (y : UInt8) : Buffer :=
  (Buffer.new 64).append ((c.frame 16 m).set k y)

theorem readableSpan_received (m : M) (k : Nat) (y : UInt8) :
    (c.received m k y).readableSpan = (c.frame 16 m).set k y ++ [] := by
  rw [received, Buffer.readableSpan_append, Buffer.readableSpan_new, List.nil_append, List.append_nil]

/-- A zero of a message arrives as a seven. -/
theorem onMessage_corrupted_zero :
    (zeros.frame 16 3)[10]? = some 0 ∧
      zeros.onMessage ⟨zeros.received 3 10 7, []⟩ = ⟨zeros.received 3 10 7, [.error .kCheckSumError]⟩ := by
  have hzero : (zeros.frame 16 3)[10]? = some 0 := by
    rw [frame_eq]
    decide +kernel
  exact ⟨hzero, onMessage_corrupted (by decide) (by decide) hzero (by decide) rfl (readableSpan_received _ _ _) []⟩

/-- The codec with a raw callback that takes every frame for itself. -/
def rawZeros : ProtobufCodec (Fin (2 ^ 27)) := { zeros with rawCb := some fun _ => false }

/-- What the raw callback takes is not looked at: the same byte is not reported, and the frame is gone. -/
theorem onMessage_corrupted_raw :
    (rawZeros.frame 16 3)[10]? = some 0 ∧
      (rawZeros.onMessage ⟨rawZeros.received 3 10 7, []⟩).events = [] ∧
      (rawZeros.onMessage ⟨rawZeros.received 3 10 7, []⟩).buf.readableSpan = [] := by
  have hzero : (rawZeros.frame 16 3)[10]? = some 0 := by
    rw [frame_eq]
    decide +kernel
  have htaken : rawZeros.drops ((rawZeros.frame 16 3).set 10 7) = true := rfl
  have hframe := verdict_set (by decide) (by decide) hzero (show (7 : UInt8) ≠ 0 by decide) []
  rw [← readableSpan_received, if_pos htaken] at hframe
  have hrest : (rawZeros.received 3 10 7).readableSpan.drop (rawZeros.frame 16 3).length = [] := by
    rw [readableSpan_received, List.append_nil, List.drop_eq_nil_iff]
    exact Nat.le_of_eq List.length_set
  have hdone : rawZeros.verdict [] = .incomplete := rfl
  refine ⟨hzero, ?_⟩
  rw [onMessage_verdict]
  simp only [hframe]
  rw [onMessage_verdict]
  simp only [Buffer.readableSpan_retrieve, hrest, hdone]
  exact ⟨rfl, trivial⟩

end Muduo.ProtobufCodec
