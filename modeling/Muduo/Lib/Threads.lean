import Mathlib.Algebra.BigOperators.Fin
import Mathlib.Data.List.Perm.Basic

/-! # Threads in lists and families

The threads of a system as a list of where each of them is: a step adds or replaces one element, or changes the one
element that is unlike the others. The same for a family over a finite index, where a step updates one value and a sum changes
by what this value changes. -/

namespace Lib
variable {α : Type} {l l' : List α} {x y : α}

/-- One `x` of a list is replaced by `y`. -/
def Replaces (l l' : List α) (x y : α) : Prop := ∃ rest, l.Perm (x :: rest) ∧ l'.Perm (y :: rest)

theorem replaces_set {k : Nat} (h : l[k]? = some x) (y : α) : Replaces l (l.set k y) x y := by
  obtain ⟨hk, rfl⟩ := List.getElem?_eq_some_iff.mp h
  exact ⟨l.eraseIdx k, (List.getElem_cons_eraseIdx_perm hk).symm, List.set_perm_cons_eraseIdx hk y⟩

namespace Replaces

theorem mem (h : Replaces l l' x y) : x ∈ l := by
  obtain ⟨rest, hl, -⟩ := h
  exact hl.mem_iff.mpr List.mem_cons_self

/-- What holds of every element still does, if it holds of the new one. -/
theorem forall_mem {P : α → Prop} (h : Replaces l l' x y) (hl : ∀ z ∈ l, P z) (hy : P y) : ∀ z ∈ l', P z := by
  obtain ⟨rest, hperm, hperm'⟩ := h
  intro z hz
  rcases List.mem_cons.mp (hperm'.mem_iff.mp hz) with rfl | hz
  · exact hy
  · exact hl z (hperm.mem_iff.mpr (List.mem_cons_of_mem _ hz))

/-- There still is an element with the property, unless it was the one replaced. -/
theorem exists_mem {P : α → Prop} (h : Replaces l l' x y) (hl : ∃ z ∈ l, P z) (hxy : P x → P y) : ∃ z ∈ l', P z := by
  obtain ⟨rest, hperm, hperm'⟩ := h
  obtain ⟨z, hz, hP⟩ := hl
  rcases List.mem_cons.mp (hperm.mem_iff.mp hz) with rfl | hz
  · exact ⟨y, hperm'.mem_iff.mpr List.mem_cons_self, hxy hP⟩
  · exact ⟨z, hperm'.mem_iff.mpr (List.mem_cons_of_mem _ hz), hP⟩

theorem mem_new (h : Replaces l l' x y) : y ∈ l' := by
  obtain ⟨rest, -, hperm'⟩ := h
  exact hperm'.mem_iff.mpr List.mem_cons_self

theorem countP (p : α → Bool) (h : Replaces l l' x y) :
    l'.countP p + (if p x then 1 else 0) = l.countP p + (if p y then 1 else 0) := by
  obtain ⟨rest, hperm, hperm'⟩ := h
  rw [hperm.countP_eq, hperm'.countP_eq, List.countP_cons, List.countP_cons]
  omega

end Replaces

theorem getElem?_concat_eq_some {i : Nat} : (l ++ [y])[i]? = some x ↔ l[i]? = some x ∨ i = l.length ∧ x = y := by
  constructor
  · intro h
    rw [List.getElem?_append] at h
    split at h
    · exact .inl h
    · obtain ⟨hlt, hx⟩ := List.getElem?_eq_some_iff.mp h
      rw [List.length_singleton] at hlt
      rw [List.getElem_singleton] at hx
      exact .inr ⟨by omega, hx.symm⟩
  · rintro (h | ⟨rfl, rfl⟩)
    · rw [List.getElem?_append_left (List.getElem?_eq_some_iff.mp h).1]
      exact h
    · exact List.getElem?_concat_length

/-- One element of a list has a property, and all the others have another one. -/
def Apart (others one : α → Prop) (l : List α) (i : Nat) : Prop :=
  (∃ x, l[i]? = some x ∧ one x) ∧ ∀ j x, j ≠ i → l[j]? = some x → others x

theorem apart_concat {others one : α → Prop} (h : ∀ z ∈ l, others z) (hx : one x) :
    Apart others one (l ++ [x]) l.length := by
  refine ⟨⟨x, List.getElem?_concat_length, hx⟩, ?_⟩
  intro j z hj hz
  rcases getElem?_concat_eq_some.mp hz with hz | ⟨heq, -⟩
  · exact h z (List.mem_of_getElem? hz)
  · exact absurd heq hj

namespace Apart
variable {others one one' : α → Prop} {i : Nat}

theorem modify {f : α → α} (h : Apart others one l i) (hf : ∀ z, one z → one' (f z)) :
    Apart others one' (l.modify i f) i := by
  obtain ⟨⟨z, hz, hone⟩, hothers⟩ := h
  refine ⟨⟨f z, by simp [hz], hf z hone⟩, ?_⟩
  intro j w hj hw
  rw [List.getElem?_modify_ne _ _ (Ne.symm hj)] at hw
  exact hothers j w hj hw

theorem forall_mem (h : Apart others one l i) (hone : ∀ z, one z → others z) : ∀ z ∈ l, others z := by
  intro z hz
  obtain ⟨j, hj⟩ := List.mem_iff_getElem?.mp hz
  obtain ⟨⟨w, hw, hw'⟩, hothers⟩ := h
  by_cases hji : j = i
  · subst hji
    rw [hw] at hj
    exact Option.some.inj hj ▸ hone w hw'
  · exact hothers j z hji hj

/-- The element that the others are not like is the one apart. -/
theorem index_eq {j : Nat} (h : Apart others one l i) (hx : l[j]? = some x) (hothers : ¬ others x) : j = i := by
  by_contra hj
  exact hothers (h.2 j x hj hx)

end Apart

theorem sum_update {n : Nat} {A : Type} [AddCommMonoid A] (f : Fin n → A) (i : Fin n) (a : A) :
    ∑ j, Function.update f i a j + f i = ∑ j, f j + a := by
  rw [Finset.sum_update_of_mem (Finset.mem_univ i), ← Finset.sum_sdiff (Finset.subset_univ {i}),
    Finset.sum_singleton, add_assoc, add_comm]

end Lib
