import Muduo.Lib.Watched

/-! # What follows a callback

Code whose last act of interest is a callback: `Code.Trails` says that what follows it is made of acts of one kind. All
callbacks that are running then return by such acts, in every run of the system. -/

namespace Lib
namespace Code
variable {σ C α β : Type} {K : (σ → σ) → Prop}

/-- Behind a callback there are only acts of `K`, and no other callback. -/
def Trails (K : (σ → σ) → Prop) : Code σ C α → Prop
  | .pure _ => True
  | .act _ next => next.Trails K
  | .ask next => ∀ s, (next s).Trails K
  | .call _ next => next.Each K fun _ => False

theorem Each.trails {L : (σ → σ) → Prop} {x : Code σ C α} (hx : x.Each L fun _ => False) : x.Trails K := by
  induction x with
  | pure a => trivial
  | act f next ih => exact ih hx.2
  | ask next ih => exact fun s => ih s (hx s)
  | call c next ih => exact absurd hx.1 not_false

theorem Trails.bind {x : Code σ C α} {g : α → Code σ C β} (hx : x.Trails K) (hg : ∀ a, (g a).Each K fun _ => False) :
    (x >>= g).Trails K := by
  induction x with
  | pure a => exact (hg a).trails
  | act f next ih => exact ih hx
  | ask next ih => exact fun s => ih s (hx s)
  | call c next ih => exact Each.bind hx hg

theorem Each.bind_trails {L : (σ → σ) → Prop} {x : Code σ C α} {g : α → Code σ C β} (hx : x.Each L fun _ => False)
    (hg : ∀ a, (g a).Trails K) : (x >>= g).Trails K := by
  induction x with
  | pure a => exact hg a
  | act f next ih => exact ih hx.2
  | ask next ih => exact fun s => ih s (hx s)
  | call c next ih => exact absurd hx.1 not_false

theorem Trails.ite {p : Prop} [Decidable p] {x y : Code σ C α} (hx : x.Trails K) (hy : y.Trails K) :
    (if p then x else y).Trails K := by
  split
  · exact hx
  · exact hy

end Code

namespace Config
variable {σ C : Type} {K : (σ → σ) → Prop}

/-- Every callback that is running returns by acts of `K`. -/
def Trailing (K : (σ → σ) → Prop) (c : Config σ C) : Prop := ∀ f ∈ c.frames, f.2.Each K fun _ => False

theorem trailing_enter {code : Code σ C Unit} {s : σ} {frames : List (C × Code σ C Unit)} (hcode : code.Trails K)
    (hframes : ∀ f ∈ frames, f.2.Each K fun _ => False) : (enter code s frames).Trailing K := by
  induction code generalizing s with
  | pure a => exact hframes
  | act f next ih => exact ih hcode
  | ask next ih => exact ih s (hcode s)
  | call c next ih => exact List.forall_mem_cons.mpr ⟨hcode, hframes⟩

theorem enter_of_each {code : Code σ C Unit} {P : σ → Prop} {s : σ} {frames : List (C × Code σ C Unit)}
    (hcode : code.Each K fun _ => False) (hact : ∀ f, K f → ∀ s, P s → P (f s)) (hs : P s) :
    P (enter code s frames).state := by
  induction code generalizing s with
  | pure a => exact hs
  | act f next ih => exact ih hcode.2 (hact f hcode.1 s hs)
  | ask next ih => exact ih s (hcode s) hs
  | call c next ih => exact absurd hcode.1 not_false

end Config

namespace Reentrant
variable {σ C Op Top : Type} {m : Reentrant σ C Op Top} {K : (σ → σ) → Prop} {c d : Config σ C}

theorem trailing_step {e : Event Op Top} (hapi : ∀ op, (m.api op).Trails K) (htop : ∀ t, (m.top t).Trails K)
    (h : c.Trailing K) (hstep : m.step c e = some d) : d.Trailing K := by
  obtain ⟨s, frames⟩ := c
  cases e with
  | call op =>
    obtain rfl := Option.some.inj hstep
    exact Config.trailing_enter (hapi op) h
  | ret =>
    cases frames with
    | nil => cases hstep
    | cons f frames =>
      obtain rfl := Option.some.inj hstep
      obtain ⟨hf, hframes⟩ := List.forall_mem_cons.mp h
      exact Config.trailing_enter hf.trails hframes
  | top t =>
    cases frames with
    | nil =>
      obtain ⟨-, ⟨⟩⟩ := Option.ite_none_right_eq_some.mp hstep
      exact Config.trailing_enter (htop t) h
    | cons f frames => cases hstep

/-- The return of a callback does no more than the acts of `K`. -/
theorem ret_of_trailing {P : σ → Prop} (h : c.Trailing K) (hstep : m.step c .ret = some d)
    (hact : ∀ f, K f → ∀ s, P s → P (f s)) (hs : P c.state) : P d.state := by
  obtain ⟨s, frames⟩ := c
  cases frames with
  | nil => cases hstep
  | cons f frames =>
    obtain rfl := Option.some.inj hstep
    exact Config.enter_of_each (h f List.mem_cons_self) hact hs

end Reentrant
end Lib
