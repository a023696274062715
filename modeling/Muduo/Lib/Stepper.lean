/-! # Guarded step functions

A system is a step function that answers `none` for an event that is not enabled. One definition
serves the replay of a concrete run and the proofs about every run: `Run` collects the runs whose
steps all meet a condition on the state before the step, and `Run.invariant` is the induction over
them. -/

namespace Lib

/-- A system: the state after an event, if the event is enabled. -/
structure Stepper (S E : Type) where
  step : S → E → Option S

namespace Stepper
variable {S E : Type} {m : Stepper S E} {cond : S → E → Prop} {s t u : S} {e : E} {es es' : List E}

/-- The runs of `m` whose steps all meet `cond`. -/
inductive Run (m : Stepper S E) (cond : S → E → Prop) : S → List E → S → Prop
  | nil (s : S) : Run m cond s [] s
  | cons {s t u : S} {e : E} {es : List E} :
      cond s e → m.step s e = some t → Run m cond t es u → Run m cond s (e :: es) u

/-- What every step meeting the condition keeps holds after every such run. -/
theorem Run.invariant {I : S → Prop} (keep : ∀ {s t : S} {e : E}, I s → cond s e → m.step s e = some t → I t)
    (h : m.Run cond s es t) (hs : I s) : I t := by
  induction h with
  | nil => exact hs
  | cons hc hstep _ ih => exact ih (keep hs hc hstep)

/-- A run is related to the fold of the same events over a simpler state if every step is. -/
theorem Run.refines {A : Type} {next : A → E → A} {R : S → A → Prop} {a : A}
    (keep : ∀ {s t : S} {a : A} {e : E}, R s a → cond s e → m.step s e = some t → R t (next a e))
    (h : m.Run cond s es t) (hs : R s a) : R t (es.foldl next a) := by
  induction h generalizing a with
  | nil => exact hs
  | cons hc hstep _ ih => exact ih (keep hs hc hstep)

theorem Run.mono {cond' : S → E → Prop} (himp : ∀ s e, cond s e → cond' s e) (h : m.Run cond s es t) :
    m.Run cond' s es t := by
  induction h with
  | nil => exact .nil _
  | cons hc hstep _ ih => exact .cons (himp _ _ hc) hstep ih

/-- A run whose events all have a property is a run under it. -/
theorem Run.restrict {P : E → Prop} (h : m.Run cond s es t) (hes : ∀ e ∈ es, P e) : m.Run (fun _ e => P e) s es t := by
  induction h with
  | nil => exact .nil _
  | cons _ hstep _ ih =>
    exact .cons (hes _ List.mem_cons_self) hstep (ih fun e he => hes e (List.mem_cons_of_mem _ he))

/-- Two conditions that are the same wherever the invariant holds admit the same runs. -/
theorem Run.congr_of_invariant {cond' : S → E → Prop} {I : S → Prop}
    (keep : ∀ {s t : S} {e : E}, I s → cond s e → m.step s e = some t → I t)
    (hcond : ∀ {s : S} {e : E}, I s → (cond s e ↔ cond' s e)) (hs : I s) : m.Run cond s es t ↔ m.Run cond' s es t := by
  constructor
  · intro h
    induction h with
    | nil => exact .nil _
    | cons hc hstep _ ih => exact .cons ((hcond hs).mp hc) hstep (ih (keep hs hc hstep))
  · intro h
    induction h with
    | nil => exact .nil _
    | cons hc hstep _ ih =>
      have hc' := (hcond hs).mpr hc
      exact .cons hc' hstep (ih (keep hs hc' hstep))

/-- There is a run. -/
def Reaches (m : Stepper S E) (cond : S → E → Prop) (s t : S) : Prop := ∃ es, m.Run cond s es t

theorem Reaches.refl (s : S) : m.Reaches cond s s := ⟨[], .nil s⟩

theorem Reaches.head (hc : cond s e) (hstep : m.step s e = some t) (h : m.Reaches cond t u) : m.Reaches cond s u := by
  obtain ⟨es, hrun⟩ := h
  exact ⟨e :: es, .cons hc hstep hrun⟩

theorem Reaches.trans (h : m.Reaches cond s t) (h' : m.Reaches cond t u) : m.Reaches cond s u := by
  obtain ⟨es, hrun⟩ := h
  induction hrun with
  | nil => exact h'
  | cons hc hstep _ ih => exact (ih h').head hc hstep

/-- The replay of a list of events under a condition that is tested before each of them. -/
def checked (m : Stepper S E) (cond : S → E → Prop) [∀ s e, Decidable (cond s e)] : S → List E → Option S
  | s, [] => some s
  | s, e :: es =>
    if cond s e then
      match m.step s e with
      | none => none
      | some t => checked m cond t es
    else none

theorem Run.of_checked [∀ s e, Decidable (cond s e)] (h : m.checked cond s es = some t) : m.Run cond s es t := by
  induction es generalizing s with
  | nil =>
    simp only [checked, Option.some.injEq] at h
    subst h
    exact .nil s
  | cons e es ih =>
    simp only [checked] at h
    split at h
    · rename_i hc
      split at h
      · cases h
      · rename_i u hstep
        exact .cons hc hstep (ih h)
    · cases h

/-- A replay shows that there is a run with a property of its last state. -/
theorem Run.replay [∀ s e, Decidable (cond s e)] {P : S → Prop} (h : m.checked cond s es = some t)
    (hP : m.Run cond s es t → P t) : ∃ t, m.Run cond s es t ∧ P t :=
  ⟨t, .of_checked h, hP (.of_checked h)⟩

end Stepper
end Lib
