import Mathlib.Data.List.TakeWhile
import Mathlib.Order.Lattice

/-! # Ordered sets

A set kept as its increasing list of elements, with the operations of an ordered container: insertion,
erasure, the first element, and the elements up to a bound in one piece. The order of the list is part of
the type. -/

namespace Lib

/-- A finite set of a linear order, as its elements in increasing order. -/
structure OrderedSet (α : Type) [LinearOrder α] where
  toList : List α
  sorted : toList.Pairwise (· < ·)

namespace OrderedSet
variable {α : Type} [LinearOrder α] {s : OrderedSet α} {a b : α}

instance : Membership α (OrderedSet α) := ⟨fun s a => a ∈ s.toList⟩

instance (a : α) (s : OrderedSet α) : Decidable (a ∈ s) := inferInstanceAs (Decidable (a ∈ s.toList))

@[simp] theorem mem_toList : a ∈ s.toList ↔ a ∈ s := Iff.rfl

def empty : OrderedSet α := ⟨[], .nil⟩

instance : EmptyCollection (OrderedSet α) := ⟨empty⟩

@[simp] theorem not_mem_empty : a ∉ (∅ : OrderedSet α) := List.not_mem_nil

def size (s : OrderedSet α) : Nat := s.toList.length

def head? (s : OrderedSet α) : Option α := s.toList.head?

theorem nodup (s : OrderedSet α) : s.toList.Nodup := s.sorted.imp fun h => h.ne

/-! ## The first element -/

theorem mem_of_head? (h : s.head? = some a) : a ∈ s := List.mem_of_mem_head? h

theorem le_of_head? (h : s.head? = some a) (hb : b ∈ s) : a ≤ b := by
  obtain ⟨l, hl⟩ : ∃ l, s.toList = a :: l := List.head?_eq_some_iff.mp h
  have hsorted := s.sorted
  rw [← mem_toList, hl] at hb
  rw [hl] at hsorted
  rcases List.mem_cons.mp hb with rfl | hb
  · exact le_rfl
  · exact le_of_lt ((List.pairwise_cons.mp hsorted).1 b hb)

theorem not_mem_of_head? (h : s.head? = none) : a ∉ s := by
  rw [← mem_toList, List.head?_eq_none_iff.mp h]
  exact List.not_mem_nil

/-! ## Insertion -/

def insertList (a : α) : List α → List α
  | [] => [a]
  | b :: l => if a < b then a :: b :: l else if a = b then b :: l else b :: insertList a l

theorem mem_insertList {l : List α} : b ∈ insertList a l ↔ b = a ∨ b ∈ l := by
  induction l with
  | nil => simp [insertList]
  | cons c l ih =>
    simp only [insertList]
    split
    · simp
    · split
      · rename_i h
        subst h
        simp
      · rw [List.mem_cons, ih, List.mem_cons]
        exact or_left_comm

theorem sorted_insertList {l : List α} (h : l.Pairwise (· < ·)) : (insertList a l).Pairwise (· < ·) := by
  induction l with
  | nil => simp [insertList]
  | cons c l ih =>
    simp only [insertList]
    obtain ⟨hc, hl⟩ := List.pairwise_cons.mp h
    split
    · rename_i hac
      refine List.pairwise_cons.mpr ⟨fun x hx => ?_, h⟩
      rcases List.mem_cons.mp hx with rfl | hx
      · exact hac
      · exact hac.trans (hc x hx)
    · split
      · exact h
      · rename_i hlt hne
        refine List.pairwise_cons.mpr ⟨fun x hx => ?_, ih hl⟩
        rcases mem_insertList.mp hx with rfl | hx
        · exact lt_of_le_of_ne (not_lt.mp hlt) (Ne.symm hne)
        · exact hc x hx

def insert (a : α) (s : OrderedSet α) : OrderedSet α := ⟨insertList a s.toList, sorted_insertList s.sorted⟩

@[simp] theorem mem_insert : b ∈ s.insert a ↔ b = a ∨ b ∈ s := mem_insertList

theorem length_insertList {l : List α} (h : a ∉ l) : (insertList a l).length = l.length + 1 := by
  induction l with
  | nil => rfl
  | cons c l ih =>
    obtain ⟨hne, hl⟩ := not_or.mp (mt List.mem_cons.mpr h)
    simp only [insertList, if_neg hne]
    split
    · rfl
    · simp [ih hl]

theorem size_insert (h : a ∉ s) : (s.insert a).size = s.size + 1 := length_insertList h

/-! ## Erasure -/

def erase (s : OrderedSet α) (a : α) : OrderedSet α := ⟨s.toList.filter (· ≠ a), s.sorted.filter _⟩

@[simp] theorem mem_erase : b ∈ s.erase a ↔ b ∈ s ∧ b ≠ a := by
  simp only [erase, ← mem_toList, List.mem_filter, decide_eq_true_eq]

/-! ## The elements up to a bound -/

/-- The elements up to `a`: what lies before the upper bound of `a`. -/
def upTo (s : OrderedSet α) (a : α) : List α := s.toList.takeWhile (· ≤ a)

def above (s : OrderedSet α) (a : α) : OrderedSet α :=
  ⟨s.toList.dropWhile (· ≤ a), s.sorted.sublist (List.dropWhile_sublist _)⟩

theorem upTo_append_above : s.upTo a ++ (s.above a).toList = s.toList := List.takeWhile_append_dropWhile

theorem le_of_mem_upTo (h : b ∈ s.upTo a) : b ≤ a := by
  have := List.mem_takeWhile_imp h
  simpa using this

theorem lt_of_mem_above (h : b ∈ s.above a) : a < b := by
  obtain ⟨l, hl⟩ := s
  change b ∈ l.dropWhile (· ≤ a) at h
  induction l with
  | nil => cases h
  | cons c l ih =>
    obtain ⟨hc, hl⟩ := List.pairwise_cons.mp hl
    by_cases hca : c ≤ a
    · rw [List.dropWhile_cons_of_pos (by simpa using hca)] at h
      exact ih hl h
    · rw [List.dropWhile_cons_of_neg (by simpa using hca)] at h
      rcases List.mem_cons.mp h with rfl | h
      · exact not_le.mp hca
      · exact (not_le.mp hca).trans (hc b h)

theorem mem_upTo : b ∈ s.upTo a ↔ b ∈ s ∧ b ≤ a := by
  constructor
  · intro h
    exact ⟨(List.takeWhile_sublist _).subset h, le_of_mem_upTo h⟩
  · rintro ⟨hb, hle⟩
    rw [← mem_toList, ← upTo_append_above (a := a), List.mem_append] at hb
    exact hb.resolve_right fun h => absurd hle (not_le.mpr (lt_of_mem_above h))

@[simp] theorem mem_above : b ∈ s.above a ↔ b ∈ s ∧ a < b := by
  constructor
  · intro h
    exact ⟨(List.dropWhile_sublist _).subset h, lt_of_mem_above h⟩
  · rintro ⟨hb, hlt⟩
    rw [← mem_toList, ← upTo_append_above (a := a), List.mem_append] at hb
    exact hb.resolve_left fun h => absurd (le_of_mem_upTo h) (not_le.mpr hlt)

theorem nodup_upTo : (s.upTo a).Nodup := s.nodup.sublist (List.takeWhile_sublist _)

end OrderedSet
end Lib
