import Muduo.Lib.Reentrant

/-! # A record of the callbacks

`Reentrant.watched` is the system of an interface that keeps, beside its state, the callbacks that were called so far.
It takes the steps that the system takes. An invariant may then relate the state to the calls: `Code.Each` says that
each part of some code keeps such an invariant, and `Code.Each.wp_watch` that the code does. -/

namespace Lib
namespace Code
variable {σ C α β : Type}

/-- The code with every callback recorded before it gets control, newest first. -/
def watch (x : Code σ C α) : Code (σ × List C) C α :=
  x.handle Prod.fst (fun s t => (s, t.2)) fun c => do
    modify fun t => (t.1, c :: t.2)
    callback c

@[simp] theorem watch_bind (x : Code σ C α) (g : α → Code σ C β) :
    (x >>= g).watch = x.watch >>= fun a => (g a).watch :=
  handle_bind x g

@[simp] theorem wp_watch_get {I : σ × List C → Prop} {R : σ × List C → σ × List C → Prop} {Q : σ → σ × List C → Prop}
    {t : σ × List C} : (get : Code σ C σ).watch.wp I R Q t ↔ Q t.1 t := Iff.rfl

/-- Every act of the code is one of `K`, and every callback one of `L`. -/
def Each (K : (σ → σ) → Prop) (L : C → Prop) : Code σ C α → Prop
  | .pure _ => True
  | .act f next => K f ∧ next.Each K L
  | .ask next => ∀ s, (next s).Each K L
  | .call c next => L c ∧ next.Each K L

section Each
variable {K : (σ → σ) → Prop} {L : C → Prop}

@[simp] theorem each_pure {a : α} : (Pure.pure a : Code σ C α).Each K L := trivial

@[simp] theorem each_get : (get : Code σ C σ).Each K L := fun _ => trivial

@[simp] theorem each_modify {f : σ → σ} : (modify f : Code σ C Unit).Each K L ↔ K f := iff_of_eq (and_true _)

@[simp] theorem each_callback {c : C} : (callback c : Code σ C Unit).Each K L ↔ L c := iff_of_eq (and_true _)

theorem Each.bind {x : Code σ C α} {g : α → Code σ C β} (hx : x.Each K L) (hg : ∀ a, (g a).Each K L) :
    (x >>= g).Each K L := by
  induction x with
  | pure a => exact hg a
  | act f next ih => exact ⟨hx.1, ih hx.2⟩
  | ask next ih => exact fun s => ih s (hx s)
  | call c next ih => exact ⟨hx.1, ih hx.2⟩

theorem Each.when {p : Prop} [Decidable p] {x : Code σ C Unit} (hx : x.Each K L) : (Code.when p x).Each K L := by
  unfold Code.when
  split
  · exact hx
  · trivial

/-- Code whose parts keep an invariant of the state and the calls keeps it. -/
theorem Each.wp_watch {I : σ × List C → Prop} {x : Code σ C α} (hx : x.Each K L)
    (hact : ∀ f, K f → ∀ t, I t → I (f t.1, t.2)) (hcall : ∀ c, L c → ∀ t, I t → I (t.1, c :: t.2)) {t : σ × List C}
    (ht : I t) : x.watch.wp I (fun _ _ => True) (fun _ => I) t := by
  induction x generalizing t with
  | pure a => exact ht
  | act f next ih => exact ih hx.2 (hact f hx.1 t ht)
  | ask next ih => exact ih t.1 (hx t.1) ht
  | call c next ih => exact ⟨hcall c hx.1 t ht, fun u hu _ => ih hx.2 hu⟩

end Each
end Code

namespace Config
variable {σ C : Type}

/-- A configuration with the calls so far. -/
def watch (c : Config σ C) (calls : List C) : Config (σ × List C) C where
  state := (c.state, calls)
  frames := c.frames.map fun f => (f.1, f.2.watch)

theorem exists_watch_enter (code : Code σ C Unit) (s : σ) (frames : List (C × Code σ C Unit)) (calls : List C) :
    ∃ calls', enter code.watch (s, calls) (frames.map fun f => (f.1, f.2.watch)) =
      (enter code s frames).watch calls' := by
  induction code generalizing s with
  | pure a => exact ⟨calls, rfl⟩
  | act f next ih => exact ih (f s)
  | ask next ih => exact ih s s
  | call c next ih => exact ⟨c :: calls, rfl⟩

end Config

namespace Reentrant
variable {σ C Op Top : Type} {m : Reentrant σ C Op Top}

/-- The interface with a record of the calls of its callbacks. -/
def watched (m : Reentrant σ C Op Top) : Reentrant (σ × List C) C Op Top where
  api op := (m.api op).watch
  top t := (m.top t).watch
  enabled t s := m.enabled t s.1

theorem watched_step {c d : Config σ C} {e : Event Op Top} (h : m.step c e = some d) (calls : List C) :
    ∃ calls', m.watched.step (c.watch calls) e = some (d.watch calls') := by
  obtain ⟨s, frames⟩ := c
  cases e with
  | call op =>
    obtain rfl := Option.some.inj h
    obtain ⟨calls', henter⟩ := Config.exists_watch_enter (m.api op) s frames calls
    exact ⟨calls', congrArg some henter⟩
  | ret =>
    cases frames with
    | nil => cases h
    | cons f frames =>
      obtain rfl := Option.some.inj h
      obtain ⟨calls', henter⟩ := Config.exists_watch_enter f.2 s frames calls
      exact ⟨calls', congrArg some henter⟩
  | top t =>
    cases frames with
    | nil =>
      obtain ⟨hen, ⟨⟩⟩ := Option.ite_none_right_eq_some.mp h
      obtain ⟨calls', henter⟩ := Config.exists_watch_enter (m.top t) s [] calls
      refine ⟨calls', ?_⟩
      rw [← henter]
      exact if_pos hen
    | cons f frames => cases h

/-- Every run of the system is one with a record of the calls. -/
theorem watched_run {c d : Config σ C} {es : List (Event Op Top)} (h : m.stepper.Run (fun _ _ => True) c es d)
    (calls : List C) :
    ∃ calls', m.watched.stepper.Run (fun _ _ => True) (c.watch calls) es (d.watch calls') := by
  induction h generalizing calls with
  | nil c => exact ⟨calls, .nil _⟩
  | cons _ hstep _ ih =>
    obtain ⟨calls', hstep'⟩ := watched_step hstep calls
    obtain ⟨calls'', hrun⟩ := ih calls'
    exact ⟨calls'', .cons trivial hstep' hrun⟩

end Reentrant
end Lib
