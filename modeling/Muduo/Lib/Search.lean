/-! # The first occurrence of a pattern

`search` is the search of a range for another one. For a pattern that does not overlap with itself the place found
is exactly the end of what comes before the first occurrence. -/

namespace Lib
variable {α : Type} [DecidableEq α] {pat l m : List α} {i : Nat}

/-- The index of the first occurrence of `pat`. -/
def search (pat : List α) : List α → Option Nat
  | [] => if pat.isPrefixOf [] then some 0 else none
  | a :: l => if pat.isPrefixOf (a :: l) then some 0 else (search pat l).map (· + 1)

theorem search_eq_some : search pat l = some i ↔
    i ≤ l.length ∧ pat <+: l.drop i ∧ ∀ j, j < i → ¬pat <+: l.drop j := by
  induction l generalizing i with
  | nil =>
    simp only [search, List.isPrefixOf_iff_prefix, List.drop_nil, List.length_nil]
    constructor
    · intro h
      split at h
      · cases h
        exact ⟨Nat.le_refl _, ‹_›, by omega⟩
      · cases h
    · rintro ⟨hi, hpat, -⟩
      rw [if_pos hpat, Nat.le_zero.mp hi]
  | cons a l ih =>
    simp only [search, List.isPrefixOf_iff_prefix]
    by_cases hpat : pat <+: a :: l
    · rw [if_pos hpat]
      constructor
      · intro h
        cases h
        exact ⟨Nat.zero_le _, hpat, by omega⟩
      · rintro ⟨-, -, hfirst⟩
        cases i with
        | zero => rfl
        | succ i => exact absurd hpat (hfirst 0 (Nat.zero_lt_succ i))
    · rw [if_neg hpat, Option.map_eq_some_iff]
      constructor
      · rintro ⟨k, hk, rfl⟩
        obtain ⟨hle, hat, hfirst⟩ := ih.mp hk
        refine ⟨Nat.succ_le_succ hle, hat, ?_⟩
        intro j hj
        cases j with
        | zero => exact hpat
        | succ j => exact hfirst j (Nat.lt_of_succ_lt_succ hj)
      · rintro ⟨hle, hat, hfirst⟩
        cases i with
        | zero => exact absurd hat hpat
        | succ i =>
          refine ⟨i, ih.mpr ⟨Nat.le_of_succ_le_succ hle, hat, ?_⟩, rfl⟩
          intro j hj
          exact hfirst (j + 1) (Nat.succ_lt_succ hj)

theorem search_eq_none : search pat l = none ↔ ¬pat <:+: l := by
  induction l with
  | nil => simp [search]
  | cons a l ih =>
    rw [search, List.infix_cons_iff, not_or, ← ih]
    split
    · simp_all
    · simp_all

theorem search_bound (h : search pat l = some i) : i + pat.length ≤ l.length := by
  obtain ⟨hle, hat, -⟩ := search_eq_some.mp h
  have := hat.length_le
  rw [List.length_drop] at this
  omega

/-- What comes before the occurrence, the occurrence, and the rest. -/
theorem search_split (h : search pat l = some i) : l = l.take i ++ (pat ++ l.drop (i + pat.length)) := by
  obtain ⟨-, hat, -⟩ := search_eq_some.mp h
  obtain ⟨rest, hrest⟩ := hat
  have hdrop : l.drop (i + pat.length) = rest := by
    rw [← List.drop_drop, ← hrest, List.drop_left]
  rw [hdrop, hrest, List.take_append_drop]

omit [DecidableEq α] in
/-- An occurrence within `l` is one within every list that `l` begins. -/
theorem prefix_drop_append {j : Nat} (h : j + pat.length ≤ l.length) :
    pat <+: (l ++ m).drop j ↔ pat <+: l.drop j := by
  rw [List.drop_append_of_le_length (by omega)]
  constructor
  · exact fun hpat => List.prefix_of_prefix_length_le hpat (List.prefix_append _ _) (by rw [List.length_drop]; omega)
  · exact fun hpat => hpat.trans (List.prefix_append _ _)

theorem search_append (h : search pat l = some i) (m : List α) : search pat (l ++ m) = some i := by
  have hbound := search_bound h
  obtain ⟨hle, hat, hfirst⟩ := search_eq_some.mp h
  refine search_eq_some.mpr ⟨?_, (prefix_drop_append hbound).mpr hat, ?_⟩
  · rw [List.length_append]
    omega
  · intro j hj hpat
    exact hfirst j hj ((prefix_drop_append (by omega)).mp hpat)

/-- There is no occurrence in what comes before the first one. -/
theorem not_infix_take (hne : pat ≠ []) (h : search pat l = some i) : ¬pat <:+: l.take i := by
  obtain ⟨-, -, hfirst⟩ := search_eq_some.mp h
  rintro ⟨s, t, hst⟩
  have hlen := congrArg List.length hst
  have hpos := List.length_pos_iff.mpr hne
  have hle := List.length_take_le i l
  simp only [List.length_append] at hlen
  refine hfirst s.length (by omega) ?_
  have hl : l = s ++ (pat ++ (t ++ l.drop i)) := by
    rw [← List.append_assoc, ← List.append_assoc, hst, List.take_append_drop]
  rw [hl, List.drop_left]
  exact List.prefix_append _ _

/-- A pattern none of whose ends is one of its beginnings. -/
def Unbordered (pat : List α) : Prop := ∀ k, 0 < k → k < pat.length → ¬pat.drop k <+: pat

/-- If it does not occur before, the first occurrence of such a pattern is where it is written. -/
theorem search_of_split (hne : pat ≠ []) (hborder : Unbordered pat) (h : ¬pat <:+: l) (m : List α) :
    search pat (l ++ (pat ++ m)) = some l.length := by
  have hpos := List.length_pos_iff.mpr hne
  refine search_eq_some.mpr ⟨?_, ?_, ?_⟩
  · rw [List.length_append]
    omega
  · rw [List.drop_left]
    exact List.prefix_append _ _
  · intro j hj hat
    by_cases hin : j + pat.length ≤ l.length
    · -- It would lie within `l`.
      rw [prefix_drop_append hin] at hat
      exact h (hat.isInfix.trans (List.drop_suffix j l).isInfix)
    · -- It would overlap with the one that is written.
      refine hborder (l.length - j) (by omega) (by omega) ?_
      rw [List.drop_append_of_le_length (by omega)] at hat
      obtain ⟨t, ht⟩ := hat
      have hcut := congrArg (List.drop (l.length - j)) ht
      rw [List.drop_append_of_le_length (by omega), List.drop_left' (by rw [List.length_drop])] at hcut
      have hpre : pat.drop (l.length - j) <+: pat ++ m := ⟨t, hcut⟩
      exact List.prefix_of_prefix_length_le hpre (List.prefix_append _ _) (by rw [List.length_drop]; omega)

omit [DecidableEq α] in
theorem unbordered_singleton (a : α) : Unbordered [a] := by
  intro k hk hlt
  simp only [List.length_singleton] at hlt
  omega

omit [DecidableEq α] in
theorem unbordered_pair {a b : α} (h : a ≠ b) : Unbordered [a, b] := by
  intro k hk hlt hpre
  obtain rfl : k = 1 := by
    simp only [List.length_cons, List.length_nil] at hlt
    omega
  exact h (List.cons_prefix_cons.mp hpre).1.symm

end Lib
