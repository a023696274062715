import Mathlib.Data.List.Basic

/-! # Tables of slots

A table with a fixed number of slots, each free or in use. What is put into the table goes into the lowest free slot. -/

namespace Lib
variable {α : Type} {slots : List (Option α)} {i j : Nat} {x : Option α}

/-- What is in a slot; there is nothing beyond the end of the table. -/
def slot (slots : List (Option α)) (i : Nat) : Option α := slots[i]?.join

def lowestFree (slots : List (Option α)) : Option Nat := slots.findIdx? Option.isNone

theorem slot_replicate_none (n : Nat) : slot (List.replicate n (none : Option α)) i = none := by
  rw [slot, List.getElem?_replicate]
  split <;> rfl

theorem slot_set (h : i < slots.length) : slot (slots.set i x) j = if j = i then x else slot slots j := by
  unfold slot
  split
  · rename_i heq
    rw [heq, List.getElem?_set_self h]
    rfl
  · rename_i hne
    rw [List.getElem?_set_ne (Ne.symm hne)]

theorem lt_length_of_slot {a : α} (h : slot slots i = some a) : i < slots.length := by
  unfold slot at h
  by_contra hlen
  rw [List.getElem?_eq_none (Nat.le_of_not_lt hlen)] at h
  cases h

theorem of_lowestFree (h : lowestFree slots = some i) : i < slots.length ∧ slot slots i = none := by
  obtain ⟨hlt, hnone, -⟩ := List.findIdx?_eq_some_iff_getElem.mp h
  refine ⟨hlt, ?_⟩
  rw [slot, List.getElem?_eq_getElem hlt, Option.isNone_iff_eq_none.mp hnone]
  rfl

theorem lowestFree_ne_none (h : i < slots.length) (hslot : slot slots i = none) : lowestFree slots ≠ none := by
  intro hfull
  have hused := List.findIdx?_eq_none_iff.mp hfull slots[i] (List.getElem_mem h)
  rw [slot, List.getElem?_eq_getElem h] at hslot
  change slots[i] = none at hslot
  rw [hslot] at hused
  cases hused

/-- A table that had a free slot has one after any slot is emptied. -/
theorem lowestFree_set_none (h : lowestFree slots ≠ none) : lowestFree (slots.set i none) ≠ none := by
  obtain ⟨j, hj⟩ := Option.ne_none_iff_exists'.mp h
  obtain ⟨hlt, hslot⟩ := of_lowestFree hj
  refine lowestFree_ne_none (by simpa using hlt) ?_
  by_cases hi : i < slots.length
  · rw [slot_set hi, hslot, ite_self]
  · rwa [List.set_eq_of_length_le (Nat.le_of_not_lt hi)]

end Lib
