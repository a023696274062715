import Mathlib.Tactic.IntervalCases
import Muduo.Lib.BigEndian

/-! # Byte order

The functions of `Endian.h`, with the byte order of the host as a parameter and the byte swaps written out as they
are before C++23. -/

namespace Muduo
open Lib

/-- `std::endian::native`, of which the static assertion admits these two. -/
inductive Endian where
  | little
  | big
  deriving DecidableEq

/-- The shifts are those of `int`, to which a `uint16_t` is promoted. -/
def byteSwap16 (value : BitVec 16) : BitVec 16 :=
  ((value.setWidth 32 <<< 8) ||| (value.setWidth 32 >>> 8)).setWidth 16

def byteSwap32 (value : BitVec 32) : BitVec 32 :=
  ((value &&& 0x000000FF#32) <<< 24) ||| ((value &&& 0x0000FF00#32) <<< 8) |||
    ((value &&& 0x00FF0000#32) >>> 8) ||| ((value &&& 0xFF000000#32) >>> 24)

def byteSwap64 (value : BitVec 64) : BitVec 64 :=
  ((value &&& 0x00000000000000FF#64) <<< 56) ||| ((value &&& 0x000000000000FF00#64) <<< 40) |||
    ((value &&& 0x0000000000FF0000#64) <<< 24) ||| ((value &&& 0x00000000FF000000#64) <<< 8) |||
    ((value &&& 0x000000FF00000000#64) >>> 8) ||| ((value &&& 0x0000FF0000000000#64) >>> 24) |||
    ((value &&& 0x00FF000000000000#64) >>> 40) ||| ((value &&& 0xFF00000000000000#64) >>> 56)

/-- The `hostToNetwork` functions: a swap on a little-endian host. -/
def hostToNetwork {w : Nat} (byteSwap : BitVec w → BitVec w) (native : Endian) (host : BitVec w) : BitVec w :=
  match native with
  | .little => byteSwap host
  | .big => host

def hostToNetwork64 : Endian → BitVec 64 → BitVec 64 := hostToNetwork byteSwap64

def hostToNetwork32 : Endian → BitVec 32 → BitVec 32 := hostToNetwork byteSwap32

def hostToNetwork16 : Endian → BitVec 16 → BitVec 16 := hostToNetwork byteSwap16

def networkToHost64 (native : Endian) (net64 : BitVec 64) : BitVec 64 := hostToNetwork64 native net64

def networkToHost32 (native : Endian) (net32 : BitVec 32) : BitVec 32 := hostToNetwork32 native net32

def networkToHost16 (native : Endian) (net16 : BitVec 16) : BitVec 16 := hostToNetwork16 native net16

/-- The bytes of an integer in the memory of the host. -/
def objectBytes (native : Endian) (size : Nat) {w : Nat} (x : BitVec w) : List UInt8 :=
  match native with
  | .little => (bigEndian size x.toNat).reverse
  | .big => bigEndian size x.toNat

/-- The integer of the host that has these bytes. -/
def ofObjectBytes (native : Endian) (w : Nat) (bytes : List UInt8) : BitVec w :=
  match native with
  | .little => .ofNat w (ofBigEndian bytes.reverse)
  | .big => .ofNat w (ofBigEndian bytes)

/-! ## What a swap does to the bytes -/

theorem getLsbD_byteSwap16 (x : BitVec 16) {i : Nat} (hi : i < 16) :
    (byteSwap16 x).getLsbD i = x.getLsbD (8 * (1 - i / 8) + i % 8) := by
  unfold byteSwap16
  interval_cases i <;> simp

theorem getLsbD_byteSwap32 (x : BitVec 32) {i : Nat} (hi : i < 32) :
    (byteSwap32 x).getLsbD i = x.getLsbD (8 * (3 - i / 8) + i % 8) := by
  unfold byteSwap32
  interval_cases i <;> simp

theorem getLsbD_byteSwap64 (x : BitVec 64) {i : Nat} (hi : i < 64) :
    (byteSwap64 x).getLsbD i = x.getLsbD (8 * (7 - i / 8) + i % 8) := by
  unfold byteSwap64
  interval_cases i <;> simp

/-- A swap reverses the bytes of an integer. -/
def ReversesBytes (size : Nat) {w : Nat} (byteSwap : BitVec w → BitVec w) : Prop :=
  ∀ x, bigEndian size (byteSwap x).toNat = (bigEndian size x.toNat).reverse

theorem reversesBytes_byteSwap16 : ReversesBytes 2 byteSwap16 :=
  fun x => bigEndian_eq_reverse fun _ hi => getLsbD_byteSwap16 x hi

theorem reversesBytes_byteSwap32 : ReversesBytes 4 byteSwap32 :=
  fun x => bigEndian_eq_reverse fun _ hi => getLsbD_byteSwap32 x hi

theorem reversesBytes_byteSwap64 : ReversesBytes 8 byteSwap64 :=
  fun x => bigEndian_eq_reverse fun _ hi => getLsbD_byteSwap64 x hi

section
variable {size w : Nat} {byteSwap : BitVec w → BitVec w}

/-- An integer of `size` bytes is determined by them. -/
theorem ofNat_ofBigEndian_bigEndian (hw : w = 8 * size) (x : BitVec w) :
    BitVec.ofNat w (ofBigEndian (bigEndian size x.toNat)) = x := by
  have hpow : 256 ^ size = 2 ^ w := by
    rw [hw, Nat.pow_mul]
  have hlt : x.toNat < 256 ^ size := by
    rw [hpow]
    exact x.isLt
  rw [ofBigEndian_bigEndian, Nat.mod_eq_of_lt hlt, BitVec.ofNat_toNat, BitVec.setWidth_eq]

theorem ReversesBytes.involution (h : ReversesBytes size byteSwap) (hw : w = 8 * size) (x : BitVec w) :
    byteSwap (byteSwap x) = x := by
  have hbytes : bigEndian size (byteSwap (byteSwap x)).toNat = bigEndian size x.toNat := by
    rw [h, h, List.reverse_reverse]
  rw [← ofNat_ofBigEndian_bigEndian hw (byteSwap (byteSwap x)), hbytes, ofNat_ofBigEndian_bigEndian hw]

/-- In network byte order an integer is stored with its most significant byte first, on either host. -/
theorem ReversesBytes.objectBytes_hostToNetwork (h : ReversesBytes size byteSwap) (native : Endian) (x : BitVec w) :
    objectBytes native size (hostToNetwork byteSwap native x) = bigEndian size x.toNat := by
  cases native with
  | little => rw [objectBytes, hostToNetwork, h, List.reverse_reverse]
  | big => rfl

/-- What is stored in network byte order is loaded again. -/
theorem ReversesBytes.networkToHost_ofObjectBytes (h : ReversesBytes size byteSwap) (hw : w = 8 * size)
    (native : Endian) (x : BitVec w) :
    hostToNetwork byteSwap native (ofObjectBytes native w (bigEndian size x.toNat)) = x := by
  cases native with
  | little => rw [ofObjectBytes, hostToNetwork, ← h, ofNat_ofBigEndian_bigEndian hw, h.involution hw]
  | big => rw [ofObjectBytes, hostToNetwork, ofNat_ofBigEndian_bigEndian hw]

end
end Muduo
