import Muduo.Lib.Stepper

/-! # Simulation

A system simulates another one up to a relation if it answers each step with some steps of its own. -/

namespace Lib.Stepper
variable {S E A F : Type} {m : Stepper S E} {cond : S → E → Prop} {a : Stepper A F} {acond : A → F → Prop}
  {s t : S} {x : A} {es : List E}

theorem Reaches.single {e : E} (hc : cond s e) (hstep : m.step s e = some t) : m.Reaches cond s t :=
  Reaches.head hc hstep (.refl t)

/-- A run goes through a state between its events. -/
theorem Run.split {es' : List E} (h : m.Run cond s (es ++ es') t) : ∃ u, m.Run cond s es u ∧ m.Run cond u es' t := by
  induction es generalizing s with
  | nil => exact ⟨s, .nil s, h⟩
  | cons e es ih =>
    cases h with
    | cons hc hstep hrun =>
      obtain ⟨u, hbefore, hafter⟩ := ih hrun
      exact ⟨u, .cons hc hstep hbefore, hafter⟩

/-- A replay whose last state passes a test. -/
theorem Run.of_any [∀ s e, Decidable (cond s e)] {P : S → Bool} (h : (m.checked cond s es).any P = true) :
    ∃ t, m.Run cond s es t ∧ P t = true := by
  obtain ⟨t, ht, hP⟩ := (Option.any_eq_true _ _).mp h
  exact ⟨t, .of_checked ht, hP⟩

/-- Every step of `m` that meets `cond` is answered from related states by steps of `a` to related states. -/
def Simulates (m : Stepper S E) (cond : S → E → Prop) (a : Stepper A F) (acond : A → F → Prop) (R : S → A → Prop) :
    Prop :=
  ∀ {s t : S} {e : E} {x : A}, R s x → cond s e → m.step s e = some t → ∃ y, a.Reaches acond x y ∧ R t y

/-- A simulation answers whole runs. -/
theorem Simulates.run {R : S → A → Prop} (hsim : Simulates m cond a acond R) (h : m.Run cond s es t) (hR : R s x) :
    ∃ y, a.Reaches acond x y ∧ R t y := by
  induction h generalizing x with
  | nil => exact ⟨x, .refl x, hR⟩
  | cons hc hstep _ ih =>
    obtain ⟨y, hy, hRy⟩ := hsim hR hc hstep
    obtain ⟨z, hz, hRz⟩ := ih hRy
    exact ⟨z, hy.trans hz, hRz⟩

end Lib.Stepper
