import Mathlib.Algebra.Group.Nat.Defs
import Mathlib.Data.List.Induction

/-! # Network byte order

A number as a fixed count of bytes, the most significant one first. -/

namespace Lib

/-- The last `k` bytes of a number. -/
def bigEndian : Nat → Nat → List UInt8
  | 0, _ => []
  | k + 1, n => bigEndian k (n / 256) ++ [UInt8.ofNat n]

def ofBigEndian (l : List UInt8) : Nat := l.foldl (fun n b => n * 256 + b.toNat) 0

@[simp] theorem length_bigEndian (k n : Nat) : (bigEndian k n).length = k := by
  induction k generalizing n with
  | zero => rfl
  | succ k ih => rw [bigEndian, List.length_append, ih, List.length_singleton]

theorem ofBigEndian_concat (l : List UInt8) (b : UInt8) : ofBigEndian (l ++ [b]) = ofBigEndian l * 256 + b.toNat := by
  rw [ofBigEndian, List.foldl_append]
  rfl

@[simp] theorem ofBigEndian_bigEndian (k n : Nat) : ofBigEndian (bigEndian k n) = n % 256 ^ k := by
  induction k generalizing n with
  | zero => rw [Nat.pow_zero, Nat.mod_one]; rfl
  | succ k ih =>
    have hpow : 256 ^ (k + 1) = 256 * 256 ^ k := by rw [Nat.pow_succ, Nat.mul_comm]
    rw [bigEndian, ofBigEndian_concat, ih, UInt8.toNat_ofNat', hpow, Nat.mod_mul]
    omega

theorem bigEndian_ofBigEndian (l : List UInt8) : bigEndian l.length (ofBigEndian l) = l := by
  induction l using List.reverseRecOn with
  | nil => rfl
  | append_singleton l b ih =>
    have hb := b.toNat_lt
    have hquot : (ofBigEndian l * 256 + b.toNat) / 256 = ofBigEndian l := by omega
    have hrem : UInt8.ofNat (ofBigEndian l * 256 + b.toNat) = b := by
      apply UInt8.toNat_inj.mp
      rw [UInt8.toNat_ofNat']
      omega
    rw [List.length_append, List.length_singleton, ofBigEndian_concat, bigEndian, hquot, hrem, ih]

theorem ofBigEndian_lt (l : List UInt8) : ofBigEndian l < 256 ^ l.length := by
  have hmod : ofBigEndian l = ofBigEndian l % 256 ^ l.length := by
    rw [← ofBigEndian_bigEndian, bigEndian_ofBigEndian]
  rw [hmod]
  exact Nat.mod_lt _ (Nat.pow_pos (by decide))

theorem ofBigEndian_inj {l l' : List UInt8} (hlen : l.length = l'.length) (h : ofBigEndian l = ofBigEndian l') :
    l = l' := by
  rw [← bigEndian_ofBigEndian l, hlen, h, bigEndian_ofBigEndian]

variable {k n m i : Nat}

theorem getElem_bigEndian (h : i < (bigEndian k n).length) :
    (bigEndian k n)[i] = UInt8.ofNat (n >>> (8 * (k - 1 - i))) := by
  induction k generalizing n i with
  | zero => simp [bigEndian] at h
  | succ k ih =>
    rw [length_bigEndian] at h
    simp only [bigEndian, List.getElem_append, length_bigEndian]
    split
    · have hexp : 8 * (k + 1 - 1 - i) = 8 + 8 * (k - 1 - i) := by omega
      have hbyte : 2 ^ 8 = 256 := rfl
      rw [ih, Nat.shiftRight_eq_div_pow, Nat.shiftRight_eq_div_pow, Nat.div_div_eq_div_mul, hexp, Nat.pow_add, hbyte]
    · have hexp : k + 1 - 1 - i = 0 := by omega
      rw [List.getElem_singleton, hexp, Nat.mul_zero, Nat.shiftRight_zero]

/-- A number whose bits are those of another, byte by byte from the other end. -/
theorem bigEndian_eq_reverse (h : ∀ i < 8 * k, n.testBit i = m.testBit (8 * (k - 1 - i / 8) + i % 8)) :
    bigEndian k n = (bigEndian k m).reverse := by
  refine List.ext_getElem (by simp) fun i hn hm => ?_
  rw [length_bigEndian] at hn
  rw [List.getElem_reverse, getElem_bigEndian, getElem_bigEndian, length_bigEndian]
  refine UInt8.toNat_inj.mp (Nat.eq_of_testBit_eq fun j => ?_)
  rw [UInt8.toNat_ofNat', UInt8.toNat_ofNat', Nat.testBit_mod_two_pow, Nat.testBit_mod_two_pow,
    Nat.testBit_shiftRight, Nat.testBit_shiftRight]
  by_cases hj : j < 8
  · rw [h (8 * (k - 1 - i) + j) (by omega)]
    congr 2
    omega
  · simp [hj]

end Lib
