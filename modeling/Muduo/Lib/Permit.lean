import Mathlib.Data.Fintype.Basic
import Muduo.Lib.Stepper

/-! # Semaphores for one permit

The counter of a `std::binary_semaphore` and the releases that some thread is bound to perform. A release is allowed
only while the counter is zero. A thread decides on a release some steps before it performs it, so a rule that keeps
the counters right speaks of the decisions: whenever a release is decided on, the permit of every decision before it
has been taken. To say so, the decisions and the permits taken are counted beside the state. -/

namespace Lib

structure Permit where
  count : Nat := 0
  owed : Nat := 0

/-- The permits that are there or on their way. -/
def Permit.total (p : Permit) : Nat := p.count + p.owed

/-- Whoever is bound to release finds the counter at zero. -/
theorem Permit.count_of_owed {p : Permit} (hp : p.total ≤ 1) (howed : 0 < p.owed) : p.count = 0 := by
  unfold Permit.total at hp
  omega

theorem Permit.count_le {p : Permit} (hp : p.total ≤ 1) : p.count ≤ 1 := Nat.le_trans (Nat.le_add_right _ _) hp

/-- A state, with how often a release of each semaphore was decided on and how often its permit was taken. -/
structure Tally (S ι : Type) where
  state : S
  decided : ι → Nat := fun _ => 0
  taken : ι → Nat := fun _ => 0

section
variable {S E ι : Type} {m : Stepper S E} {decides takes : ι → S → E → Bool} {t u : Tally S ι} {e : E}

/-- The same system, with the counts. -/
def Stepper.tallied (m : Stepper S E) (decides takes : ι → S → E → Bool) : Stepper (Tally S ι) E where
  step t e := (m.step t.state e).map fun s =>
    { state := s
      decided := fun i => t.decided i + (decides i t.state e).toNat
      taken := fun i => t.taken i + (takes i t.state e).toNat }

/-- A release is decided on only when every permit that was decided on before has been taken. -/
def TakenFirst (decides : ι → S → E → Bool) (t : Tally S ι) (e : E) : Prop :=
  ∀ i, decides i t.state e = true → t.decided i = t.taken i

instance [Fintype ι] (t : Tally S ι) (e : E) : Decidable (TakenFirst decides t e) :=
  inferInstanceAs (Decidable (∀ _, _ → _))

/-- No more than what was decided on and is not yet taken is there or on its way, and that is one at most. -/
def Tally.Balanced (permit : ι → S → Permit) (t : Tally S ι) : Prop :=
  ∀ i, (permit i t.state).total + t.taken i ≤ t.decided i ∧ t.decided i ≤ t.taken i + 1

namespace Tally.Balanced
variable {permit : ι → S → Permit}

theorem total_le (h : t.Balanced permit) (i : ι) : (permit i t.state).total ≤ 1 := by
  have hi := h i
  omega

theorem step (h : t.Balanced permit) (hfirst : TakenFirst decides t e)
    (hflow : ∀ {s}, m.step t.state e = some s → ∀ i,
      (permit i s).total + (takes i t.state e).toNat ≤ (permit i t.state).total + (decides i t.state e).toNat)
    (hstep : (m.tallied decides takes).step t e = some u) : u.Balanced permit := by
  obtain ⟨s, hs, rfl⟩ := Option.map_eq_some_iff.mp hstep
  intro i
  have hi := h i
  have hflow := hflow hs i
  have hfirst := hfirst i
  dsimp only
  cases hdecides : decides i t.state e with
  | false =>
    rw [hdecides] at hflow
    simp only [Bool.toNat_false] at hflow ⊢
    omega
  | true =>
    rw [hdecides] at hflow
    have hequal := hfirst hdecides
    simp only [Bool.toNat_true] at hflow ⊢
    omega

/-- It is enough that no step brings a permit that was not decided on. -/
theorem run {I : S → Prop} {es : List E} (hkeep : ∀ {s s' e}, I s → m.step s e = some s' → I s')
    (hflow : ∀ {s s' e}, I s → m.step s e = some s' → ∀ i,
      (permit i s').total + (takes i s e).toNat ≤ (permit i s).total + (decides i s e).toNat)
    (hrun : (m.tallied decides takes).Run (TakenFirst decides) t es u) (hI : I t.state) (h : t.Balanced permit) :
    u.Balanced permit := by
  have hboth : I u.state ∧ u.Balanced permit := by
    refine hrun.invariant (I := fun t => I t.state ∧ t.Balanced permit) ?_ ⟨hI, h⟩
    intro t u e ⟨hI, h⟩ hfirst hstep
    refine ⟨?_, h.step hfirst (hflow hI) hstep⟩
    obtain ⟨s, hs, rfl⟩ := Option.map_eq_some_iff.mp hstep
    exact hkeep hI hs
  exact hboth.2

end Tally.Balanced
end
end Lib
