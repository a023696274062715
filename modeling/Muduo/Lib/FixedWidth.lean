import Mathlib.Algebra.Group.Nat.Defs
import Mathlib.Data.List.Lex
import Mathlib.Order.Lattice

/-! # Texts in order

Texts are compared by their first difference. Numbers written with leading zeros, all with as many digits, are in the
order of the numbers; and a sequence that is in the order of its keys is what the keys give one after the other. -/

namespace Lib

/-! ## Texts of the same length -/

section
variable {α : Type} [LT α]

/-- What follows does not matter after a difference. -/
theorem lt_append {a b : List α} (hlength : a.length = b.length) (h : a < b) (x y : List α) : a ++ x < b ++ y := by
  have hlex : List.Lex (· < ·) a b := h
  induction hlex with
  | nil => simp at hlength
  | rel hhead => exact List.Lex.rel hhead
  | cons hlex ih => exact List.Lex.cons (ih (by simpa using hlength) hlex)

/-- What comes before and is the same does not matter. -/
theorem append_lt (a : List α) {x y : List α} (h : x < y) : a ++ x < a ++ y := List.Lex.append_left _ h a

end

/-! ## Digits -/

/-- The last `width` decimal digits. -/
def digits : Nat → Nat → List Char
  | 0, _ => []
  | width + 1, n => digits width (n / 10) ++ [Char.ofNat (48 + n % 10)]

@[simp]
theorem length_digits (width n : Nat) : (digits width n).length = width := by
  induction width generalizing n with
  | zero => rfl
  | succ width ih => simp [digits, ih]

theorem digits_append {width n : Nat} (h : n < 10 ^ width) (width' n' : Nat) :
    digits width' n' ++ digits width n = digits (width' + width) (n' * 10 ^ width + n) := by
  induction width generalizing n with
  | zero =>
    obtain rfl : n = 0 := by simpa using h
    simp [digits]
  | succ width ih =>
    have hrest : n / 10 < 10 ^ width := Nat.div_lt_of_lt_mul (by rw [Nat.mul_comm, ← Nat.pow_succ]; exact h)
    have hsplit : n' * 10 ^ (width + 1) = n' * 10 ^ width * 10 := by rw [Nat.pow_succ, Nat.mul_assoc]
    have hdiv : (n' * 10 ^ (width + 1) + n) / 10 = n' * 10 ^ width + n / 10 := by omega
    have hmod : (n' * 10 ^ (width + 1) + n) % 10 = n % 10 := by omega
    rw [← Nat.add_assoc, digits, digits, hdiv, hmod, ← ih hrest, List.append_assoc]

theorem digit_lt : ∀ m < 10, ∀ n < 10, m < n → Char.ofNat (48 + m) < Char.ofNat (48 + n) := by decide

theorem digits_lt {width m n : Nat} (h : m < n) (hn : n < 10 ^ width) : digits width m < digits width n := by
  induction width generalizing m n with
  | zero =>
    have hn' : n < 1 := hn
    omega
  | succ width ih =>
    have hrest : n / 10 < 10 ^ width := Nat.div_lt_of_lt_mul (by rw [Nat.mul_comm, ← Nat.pow_succ]; exact hn)
    rcases Nat.lt_or_ge (m / 10) (n / 10) with hlt | hge
    · exact lt_append (by simp) (ih hlt hrest) _ _
    · have hsame : m / 10 = n / 10 := by omega
      have hlast := digit_lt (m % 10) (by omega) (n % 10) (by omega) (by omega)
      rw [digits, digits, hsame]
      exact append_lt _ (List.Lex.rel hlast)

/-! ## Keys -/

section
variable {α κ : Type} [LinearOrder κ] {key : α → κ} {l : List α}

theorem filter_least_append {k : κ} (hl : l.Pairwise fun a b => key a ≤ key b) (hleast : ∀ a ∈ l, k ≤ key a) :
    l.filter (fun a => key a = k) ++ l.filter (fun a => key a ≠ k) = l := by
  induction l with
  | nil => rfl
  | cons a l ih =>
    obtain ⟨hhead, htail⟩ := List.pairwise_cons.mp hl
    obtain ⟨hk, hrest⟩ := List.forall_mem_cons.mp hleast
    by_cases ha : key a = k
    · simpa [ha] using ih htail hrest
    · -- no key after one above the least is the least
      have hnone : ∀ b ∈ l, key b ≠ k := fun b hb => (lt_of_lt_of_le (lt_of_le_of_ne hk (Ne.symm ha)) (hhead b hb)).ne'
      have hfilter : l.filter (fun b => key b = k) = [] := by simpa using hnone
      simpa [ha, hfilter] using hnone

theorem flatMap_filter_key {ks : List κ} (hks : ks.Pairwise (· < ·)) (hl : l.Pairwise fun a b => key a ≤ key b)
    (hmem : ∀ a ∈ l, key a ∈ ks) : ks.flatMap (fun k => l.filter fun a => key a = k) = l := by
  induction ks generalizing l with
  | nil =>
    have hnone : l = [] := List.eq_nil_iff_forall_not_mem.mpr fun a ha => List.not_mem_nil (hmem a ha)
    simp [hnone]
  | cons k ks ih =>
    obtain ⟨hhead, htail⟩ := List.pairwise_cons.mp hks
    have hleast : ∀ a ∈ l, k ≤ key a := by
      intro a ha
      rcases List.mem_cons.mp (hmem a ha) with heq | hin
      · exact heq.ge
      · exact (hhead _ hin).le
    have hrest : ks.flatMap (fun k' => (l.filter fun a => key a ≠ k).filter fun a => key a = k') =
        l.filter fun a => key a ≠ k := by
      apply ih htail (hl.filter _)
      intro a ha
      obtain ⟨hin, hne⟩ := List.mem_filter.mp ha
      exact (List.mem_cons.mp (hmem a hin)).resolve_left (by simpa using hne)
    have hothers : ks.flatMap (fun k' => l.filter fun a => key a = k') =
        ks.flatMap (fun k' => (l.filter fun a => key a ≠ k).filter fun a => key a = k') := by
      apply List.flatMap_congr
      intro k' hk'
      rw [List.filter_filter]
      apply List.filter_congr
      intro a _
      have hne := (hhead k' hk').ne'
      by_cases ha : key a = k' <;> simp [ha, hne]
    rw [List.flatMap_cons, hothers, hrest, filter_least_append hl hleast]

end
end Lib
