/-! # Loops

A `while` loop that is given a number of turns and answers `none` if they do not suffice. What the body keeps holds at the
end; an invariant may speak of the turns that were taken; and one with a rank that drops in every turn shows that the loop
ends. -/

namespace Lib
variable {S : Type} {cond : S → Bool} {body : S → S} {fuel : Nat} {s t : S}

def whileLoop (cond : S → Bool) (body : S → S) : Nat → S → Option S
  | 0, s => if cond s then none else some s
  | fuel + 1, s => if cond s then whileLoop cond body fuel (body s) else some s

theorem whileLoop_of_not (h : cond s = false) : whileLoop cond body fuel s = some s := by
  cases fuel <;> simp only [whileLoop, h, Bool.false_eq_true, ↓reduceIte]

theorem whileLoop_of_not_after (hs : cond s) (h : cond (body s) = false) :
    whileLoop cond body (fuel + 1) s = some (body s) := by
  rw [whileLoop, if_pos hs, whileLoop_of_not h]

/-- More turns than the loop takes do not matter. -/
theorem whileLoop_mono {fuel' : Nat} (h : whileLoop cond body fuel s = some t) (hle : fuel ≤ fuel') :
    whileLoop cond body fuel' s = some t := by
  induction fuel generalizing s fuel' with
  | zero =>
    obtain ⟨hcond, heq⟩ := Option.ite_none_left_eq_some.mp h
    rw [whileLoop_of_not (Bool.eq_false_iff.mpr hcond), heq]
  | succ fuel ih =>
    obtain ⟨fuel', rfl⟩ : ∃ k, fuel' = k + 1 := ⟨fuel' - 1, by omega⟩
    rw [whileLoop] at h ⊢
    split at h
    · rename_i hcond
      rw [if_pos hcond]
      exact ih h (Nat.le_of_succ_le_succ hle)
    · rename_i hcond
      rw [if_neg hcond]
      exact h

theorem whileLoop_keeps {I : S → Prop} (keep : ∀ {s}, I s → cond s → I (body s)) (hs : I s)
    (h : whileLoop cond body fuel s = some t) : I t ∧ cond t = false := by
  induction fuel generalizing s with
  | zero =>
    obtain ⟨hcond, heq⟩ := Option.ite_none_left_eq_some.mp h
    cases heq
    exact ⟨hs, Bool.eq_false_iff.mpr hcond⟩
  | succ fuel ih =>
    rw [whileLoop] at h
    split at h
    · rename_i hcond
      exact ih (keep hs hcond) h
    · rename_i hcond
      cases h
      exact ⟨hs, Bool.eq_false_iff.mpr hcond⟩

/-- The rank is a part of the invariant, so it may speak of what the state does not hold. -/
theorem whileLoop_ends {I : Nat → S → Prop} {k : Nat} (step : ∀ {k s}, I k s → cond s → ∃ k' < k, I k' (body s))
    (hs : I k s) (hfuel : k ≤ fuel) :
    ∃ t, whileLoop cond body fuel s = some t ∧ cond t = false ∧ ∃ k', I k' t := by
  induction fuel generalizing s k with
  | zero =>
    cases hcond : cond s with
    | true =>
      obtain ⟨k', hlt, -⟩ := step hs hcond
      omega
    | false => exact ⟨s, whileLoop_of_not hcond, hcond, k, hs⟩
  | succ fuel ih =>
    cases hcond : cond s with
    | true =>
      obtain ⟨k', hlt, hbody⟩ := step hs hcond
      obtain ⟨t, ht, hend⟩ := ih hbody (Nat.le_of_lt_succ (Nat.lt_of_lt_of_le hlt hfuel))
      exact ⟨t, by rw [whileLoop, if_pos hcond, ht], hend⟩
    | false => exact ⟨s, whileLoop_of_not hcond, hcond, k, hs⟩

/-- The states in which the body runs. -/
def turns (cond : S → Bool) (body : S → S) : Nat → S → List S
  | 0, _ => []
  | fuel + 1, s => if cond s then s :: turns cond body fuel (body s) else []

theorem whileLoop_turns {I : List S → S → Prop} {seen : List S}
    (step : ∀ {seen s}, I seen s → cond s → I (seen ++ [s]) (body s)) (hs : I seen s)
    (h : whileLoop cond body fuel s = some t) : I (seen ++ turns cond body fuel s) t := by
  induction fuel generalizing s seen with
  | zero =>
    obtain ⟨-, ⟨⟩⟩ := Option.ite_none_left_eq_some.mp h
    rwa [turns, List.append_nil]
  | succ fuel ih =>
    rw [whileLoop] at h
    rw [turns]
    split at h
    · rename_i hcond
      rw [if_pos hcond, List.append_cons]
      exact ih (step hs hcond) h
    · rename_i hcond
      cases h
      rwa [if_neg hcond, List.append_nil]

theorem length_turns (h : whileLoop cond body fuel s = none) : (turns cond body fuel s).length = fuel := by
  induction fuel generalizing s with
  | zero => rfl
  | succ fuel ih =>
    rw [whileLoop] at h
    split at h
    · rename_i hcond
      rw [turns, if_pos hcond, List.length_cons, ih h]
    · cases h

end Lib
