/-! # Slices of lists

A list as the contents of an array: the part between two indices, and the list with a part written
over. -/

namespace Lib
variable {α : Type} {l d : List α} {i j k : Nat}

/-- The elements from index `i` up to index `j`. -/
def slice (l : List α) (i j : Nat) : List α := (l.drop i).take (j - i)

/-- The list with `d` written over it from index `i` on. -/
def overwrite (l : List α) (i : Nat) (d : List α) : List α := l.take i ++ d ++ l.drop (i + d.length)

@[simp] theorem length_slice (hj : j ≤ l.length) : (slice l i j).length = j - i := by
  rw [slice, List.length_take, List.length_drop]
  omega

@[simp] theorem slice_self : slice l i i = [] := by simp [slice]

theorem length_overwrite (h : i + d.length ≤ l.length) : (overwrite l i d).length = l.length := by
  simp only [overwrite, List.length_append, List.length_take, List.length_drop]
  omega

theorem slice_append_slice (hij : i ≤ j) (hjk : j ≤ k) : slice l i j ++ slice l j k = slice l i k := by
  have hk : k - i = (j - i) + (k - j) := by omega
  have hdrop : l.drop j = (l.drop i).drop (j - i) := by rw [List.drop_drop, Nat.add_sub_cancel' hij]
  rw [slice, slice, slice, hk, List.take_add, hdrop]

theorem drop_slice {n : Nat} : (slice l i j).drop n = slice l (i + n) j := by
  rw [slice, slice, List.drop_take, List.drop_drop]
  congr 1
  omega

theorem take_slice {n : Nat} : (slice l i j).take n = slice l i (min (i + n) j) := by
  rw [slice, slice, List.take_take]
  congr 1
  omega

theorem slice_slice {a c : Nat} (hac : a ≤ c) (hc : i + c ≤ j) : slice (slice l i j) a c = slice l (i + a) (i + c) := by
  have hmin : min (i + a + (c - a)) j = i + c := by omega
  rw [slice, drop_slice, take_slice, hmin]

theorem slice_overwrite (h : i ≤ l.length) : slice (overwrite l i d) i (i + d.length) = d := by
  have htake : (l.take i).length = i := List.length_take_of_le h
  rw [slice, overwrite, List.append_assoc, List.drop_append_of_le_length (by omega)]
  rw [List.drop_eq_nil_of_le (by omega), List.nil_append, Nat.add_sub_cancel_left, List.take_left]

theorem slice_overwrite_of_le (hjk : j ≤ i) (h : i ≤ l.length) : slice (overwrite l i d) k j = slice l k j := by
  by_cases hk : k ≤ j
  · have htake : (l.take i).length = i := List.length_take_of_le h
    rw [slice, slice, overwrite, List.append_assoc, List.drop_append_of_le_length (by omega),
      List.take_append_of_le_length (by rw [List.length_drop]; omega), List.drop_take, List.take_take,
      Nat.min_eq_left (by omega)]
  · rw [slice, slice, Nat.sub_eq_zero_of_le (by omega), List.take_zero, List.take_zero]

theorem slice_overwrite_of_ge (hik : i + d.length ≤ k) (h : i + d.length ≤ l.length) :
    slice (overwrite l i d) k j = slice l k j := by
  have hlen : (l.take i ++ d).length = i + d.length := by
    rw [List.length_append, List.length_take_of_le (by omega)]
  have hdrop : (overwrite l i d).drop k = l.drop k := by
    rw [overwrite, List.drop_append, List.drop_eq_nil_of_le (by omega), List.nil_append, hlen, List.drop_drop]
    congr 1
    omega
  rw [slice, slice, hdrop]

/-- Elements that are written where they stand already. -/
theorem overwrite_append_slice (h : k ≤ l.length) : overwrite l i (d ++ slice l (i + d.length) k) = overwrite l i d := by
  have hrest : slice l (i + d.length) k ++ l.drop (i + (d ++ slice l (i + d.length) k).length) = l.drop (i + d.length) := by
    rw [List.length_append, length_slice h, ← Nat.add_assoc, ← List.drop_drop, slice, List.take_append_drop]
  rw [overwrite, ← List.append_assoc, List.append_assoc (l.take i ++ d), hrest, overwrite]

theorem slice_append_right (hj : j ≤ l.length) : slice (l ++ d) i j = slice l i j := by
  by_cases hi : i ≤ l.length
  · have hlen : j - i ≤ (l.drop i).length := by
      rw [List.length_drop]
      omega
    rw [slice, slice, List.drop_append_of_le_length hi, List.take_append_of_le_length hlen]
  · rw [slice, slice, Nat.sub_eq_zero_of_le (by omega), List.take_zero, List.take_zero]

/-! ## Removing an element by a swap with the last -/

/-- The list with the elements at two indices exchanged. -/
def iterSwap (l : List α) (i j : Nat) : List α :=
  match l[i]?, l[j]? with
  | some a, some b => (l.set i b).set j a
  | _, _ => l

@[simp] theorem length_iterSwap : (iterSwap l i j).length = l.length := by
  unfold iterSwap
  split
  · rw [List.length_set, List.length_set]
  · rfl

theorem iterSwap_self : iterSwap l i i = l := by
  unfold iterSwap
  split
  · rename_i a b ha hb
    rw [ha, Option.some.injEq] at hb
    obtain ⟨hi, rfl⟩ := List.getElem?_eq_some_iff.mp ha
    rw [← hb, List.set_set, List.set_getElem_self]
  · rfl

/-- The last element takes the place of the one that goes. -/
theorem getElem?_dropLast_iterSwap (hi : i < l.length) :
    (iterSwap l i (l.length - 1)).dropLast[k]? =
      if k < l.length - 1 then if k = i then l[l.length - 1]? else l[k]? else none := by
  have hget : ∀ {n}, (hn : n < l.length) → l[n]? = some l[n] := fun hn => List.getElem?_eq_getElem hn
  rw [List.getElem?_dropLast, length_iterSwap, iterSwap, hget hi, hget (by omega)]
  split
  · rename_i hk
    simp only [List.getElem?_set, List.length_set, if_neg (by omega : l.length - 1 ≠ k)]
    by_cases hki : k = i
    · rw [if_pos hki.symm, if_pos (by omega), if_pos hki]
    · rw [if_neg (Ne.symm hki), if_neg hki]
  · rfl

end Lib
