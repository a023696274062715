import Muduo.Lib.Stepper

/-! # Code that runs callbacks

`Code` is straight-line code of one thread on a state that, at marked points, hands control to a
callback. Code behind an interface does not know what a callback does: while it runs, it may call the
interface again, any number of times and to any depth, before the code that called it goes on.
`Reentrant` is the system of such an interface. Its configurations keep, for each callback that is
running, the code that follows it; its events are a call of the interface, the return of the innermost
callback, and an event that the environment delivers only while no callback runs.

`Code.wp` is the weakest precondition for code whose callbacks keep an invariant `I` and only change
the state along `R`. `Reentrant.Keeps` collects what each operation has to show, and
`Reentrant.Keeps.run` concludes that the invariant holds in every configuration of every run. -/

namespace Lib

/-- Code on a state `σ` that may hand control to a callback `C`. -/
inductive Code (σ C α : Type) where
  | pure (a : α)
  | act (f : σ → σ) (next : Code σ C α)
  | ask (next : σ → Code σ C α)
  | call (c : C) (next : Code σ C α)

namespace Code
variable {σ τ C D α β : Type}

def bind : Code σ C α → (α → Code σ C β) → Code σ C β
  | .pure a, g => g a
  | .act f next, g => .act f (next.bind g)
  | .ask next, g => .ask fun s => (next s).bind g
  | .call c next, g => .call c (next.bind g)

instance : Monad (Code σ C) where
  pure := .pure
  bind := .bind

def get : Code σ C σ := .ask .pure

def modify (f : σ → σ) : Code σ C Unit := .act f (.pure ())

def callback (c : C) : Code σ C Unit := .call c (.pure ())

def when (p : Prop) [Decidable p] (x : Code σ C Unit) : Code σ C Unit := if p then x else pure ()

/-- Code on a part of a state, its callbacks answered by code on the whole. -/
def handle (get : τ → σ) (set : σ → τ → τ) (answer : C → Code τ D Unit) : Code σ C α → Code τ D α
  | .pure a => .pure a
  | .act f next => .act (fun t => set (f (get t)) t) (next.handle get set answer)
  | .ask next => .ask fun t => (next (get t)).handle get set answer
  | .call c next => (answer c).bind fun _ => next.handle get set answer

/-- Where code stops: at its end, or at a callback with the code that follows it. -/
inductive Outcome (σ C α : Type) where
  | done (a : α) (s : σ)
  | calls (c : C) (s : σ) (rest : Code σ C α)

def exec : Code σ C α → σ → Outcome σ C α
  | .pure a, s => .done a s
  | .act f next, s => next.exec (f s)
  | .ask next, s => (next s).exec s
  | .call c next, s => .calls c s next

/-! ## Weakest preconditions -/

section Wp
variable {I : σ → Prop} {R : σ → σ → Prop} {Q Q' : α → σ → Prop} {s : σ}

/-- The code ends in `Q`, and `I` holds whenever it hands control to a callback, if each callback keeps
    `I` and changes the state along `R`. -/
def wp (I : σ → Prop) (R : σ → σ → Prop) : Code σ C α → (α → σ → Prop) → σ → Prop
  | .pure a, Q, s => Q a s
  | .act f next, Q, s => next.wp I R Q (f s)
  | .ask next, Q, s => (next s).wp I R Q s
  | .call _ next, Q, s => I s ∧ ∀ t, I t → R s t → next.wp I R Q t

@[simp] theorem wp_pure {a : α} : (Pure.pure a : Code σ C α).wp I R Q s ↔ Q a s := Iff.rfl

@[simp] theorem wp_get {Q : σ → σ → Prop} : (get : Code σ C σ).wp I R Q s ↔ Q s s := Iff.rfl

@[simp] theorem wp_modify {f : σ → σ} {Q : Unit → σ → Prop} :
    (modify f : Code σ C Unit).wp I R Q s ↔ Q () (f s) := Iff.rfl

@[simp] theorem wp_callback {c : C} {Q : Unit → σ → Prop} :
    (callback c : Code σ C Unit).wp I R Q s ↔ I s ∧ ∀ t, I t → R s t → Q () t := Iff.rfl

theorem wp_bind_eq {x : Code σ C α} {g : α → Code σ C β} {Q : β → σ → Prop} :
    (x.bind g).wp I R Q s ↔ x.wp I R (fun a t => (g a).wp I R Q t) s := by
  induction x generalizing s with
  | pure a => exact Iff.rfl
  | act f next ih => exact ih
  | ask next ih => exact ih s
  | call c next ih => simp only [bind, wp, ih]

@[simp] theorem wp_bind {x : Code σ C α} {g : α → Code σ C β} {Q : β → σ → Prop} :
    (x >>= g).wp I R Q s ↔ x.wp I R (fun a t => (g a).wp I R Q t) s := wp_bind_eq

theorem wp_mono {x : Code σ C α} (hQ : ∀ a t, Q a t → Q' a t) (h : x.wp I R Q s) : x.wp I R Q' s := by
  induction x generalizing s with
  | pure a => exact hQ a s h
  | act f next ih => exact ih h
  | ask next ih => exact ih s h
  | call c next ih => exact ⟨h.1, fun t ht hr => ih (h.2 t ht hr)⟩

theorem wp_ite {p : Prop} [Decidable p] {x y : Code σ C α} (hx : p → x.wp I R Q s) (hy : ¬p → y.wp I R Q s) :
    (if p then x else y).wp I R Q s := by
  split
  · exact hx ‹_›
  · exact hy ‹_›

theorem wp_when {p : Prop} [Decidable p] {x : Code σ C Unit} {Q : Unit → σ → Prop} (hx : p → x.wp I R Q s)
    (hn : ¬p → Q () s) : (when p x).wp I R Q s :=
  wp_ite hx hn

end Wp

/-! ## Code on a part of a state -/

section Handle
variable {get : τ → σ} {set : σ → τ → τ} {answer : C → Code τ D Unit}

theorem bind_assoc {γ : Type} (x : Code σ C α) (g : α → Code σ C β) (k : β → Code σ C γ) :
    (x.bind g).bind k = x.bind fun a => (g a).bind k := by
  induction x with
  | pure a => rfl
  | act f next ih => simp only [bind, ih]
  | ask next ih => simp only [bind, ih]
  | call c next ih => simp only [bind, ih]

theorem handle_bind_eq (x : Code σ C α) (g : α → Code σ C β) :
    (x.bind g).handle get set answer = (x.handle get set answer).bind fun a => (g a).handle get set answer := by
  induction x with
  | pure a => rfl
  | act f next ih => simp only [bind, handle, ih]
  | ask next ih => simp only [bind, handle, ih]
  | call c next ih => simp only [bind, handle, ih, bind_assoc]

@[simp] theorem handle_bind (x : Code σ C α) (g : α → Code σ C β) :
    (x >>= g).handle get set answer = x.handle get set answer >>= fun a => (g a).handle get set answer :=
  handle_bind_eq x g

@[simp] theorem handle_pure (a : α) : (Pure.pure a : Code σ C α).handle get set answer = Pure.pure a := rfl

@[simp] theorem handle_get :
    (Code.get : Code σ C σ).handle get set answer = Code.get >>= fun t => Pure.pure (get t) := rfl

@[simp] theorem handle_modify (f : σ → σ) :
    (modify f : Code σ C Unit).handle get set answer = modify fun t => set (f (get t)) t := rfl

@[simp] theorem handle_callback (c : C) :
    (callback c : Code σ C Unit).handle get set answer = answer c >>= fun _ => Pure.pure () := rfl

theorem handle_ite {p : Prop} [Decidable p] (x y : Code σ C α) :
    (if p then x else y).handle get set answer =
      if p then x.handle get set answer else y.handle get set answer := by
  split <;> rfl

theorem handle_when {p : Prop} [Decidable p] (x : Code σ C Unit) :
    (when p x).handle get set answer = when p (x.handle get set answer) := handle_ite x _

end Handle
end Code

/-! ## The system of an interface -/

/-- What user code runs on: the state, and for each callback that is running, innermost first, the code
    that goes on when it returns. -/
structure Config (σ C : Type) where
  state : σ
  frames : List (C × Code σ C Unit)

namespace Config
variable {σ C : Type}

/-- Run code above the given frames until it ends or hands control to a callback. -/
def enter (code : Code σ C Unit) (s : σ) (frames : List (C × Code σ C Unit)) : Config σ C :=
  match code.exec s with
  | .done _ t => ⟨t, frames⟩
  | .calls c t rest => ⟨t, (c, rest) :: frames⟩

end Config

/-- An interface with callbacks: what user code may call at any time, and what the environment delivers
    while no callback runs. -/
structure Reentrant (σ C Op Top : Type) where
  api : Op → Code σ C Unit
  top : Top → Code σ C Unit
  enabled : Top → σ → Bool

namespace Reentrant

inductive Event (Op Top : Type) where
  | call (op : Op)
  | ret
  | top (t : Top)

variable {σ C Op Top : Type} {m : Reentrant σ C Op Top}

def step (m : Reentrant σ C Op Top) (c : Config σ C) : Event Op Top → Option (Config σ C)
  | .call op => some (.enter (m.api op) c.state c.frames)
  | .ret =>
    match c.frames with
    | [] => none
    | (_, rest) :: frames => some (.enter rest c.state frames)
  | .top t =>
    match c.frames with
    | [] => if m.enabled t c.state then some (.enter (m.top t) c.state []) else none
    | _ :: _ => none

def stepper (m : Reentrant σ C Op Top) : Stepper (Config σ C) (Event Op Top) := ⟨m.step⟩

/-- A condition on the state before each call of the interface and before each event. -/
structure Cond (σ Op Top : Type) where
  call : Op → σ → Prop
  top : Top → σ → Prop

def Cond.holds (cond : Cond σ Op Top) (c : Config σ C) : Event Op Top → Prop
  | .call op => cond.call op c.state
  | .ret => True
  | .top t => cond.top t c.state

instance (cond : Cond σ Op Top) [∀ op s, Decidable (cond.call op s)] [∀ t s, Decidable (cond.top t s)]
    (c : Config σ C) (e : Event Op Top) : Decidable (cond.holds c e) :=
  match e with
  | .call op => inferInstanceAs (Decidable (cond.call op c.state))
  | .ret => instDecidableTrue
  | .top t => inferInstanceAs (Decidable (cond.top t c.state))

/-- What the operations have to show, for an invariant `I` of the points where user code is in control
    and an invariant `J` of the points where no callback runs, if all callbacks change the state along
    `R`. -/
structure Keeps (m : Reentrant σ C Op Top) (cond : Cond σ Op Top) (I J : σ → Prop) (R : σ → σ → Prop) : Prop where
  refl : ∀ s, R s s
  trans : ∀ {s t u}, R s t → R t u → R s u
  inner : ∀ {s}, J s → I s
  outer : ∀ {s t}, J s → I t → R s t → J t
  api : ∀ {op s}, I s → cond.call op s → (m.api op).wp I R (fun _ t => I t ∧ R s t) s
  top : ∀ {t s}, J s → m.enabled t s = true → cond.top t s → (m.top t).wp I R (fun _ u => J u) s

/-- Each frame goes on safely from every state its callback can return in. -/
def FramesOk (I J : σ → Prop) (R : σ → σ → Prop) : List (C × Code σ C Unit) → σ → Prop
  | [], s => J s
  | (_, rest) :: frames, s => ∀ t, I t → R s t → rest.wp I R (fun _ u => I u ∧ FramesOk I J R frames u) t

variable {cond : Cond σ Op Top} {I J : σ → Prop} {R : σ → σ → Prop}

theorem Keeps.framesOk_mono (k : m.Keeps cond I J R) {frames : List (C × Code σ C Unit)} {s t : σ}
    (h : FramesOk I J R frames s) (ht : I t) (hr : R s t) : FramesOk I J R frames t := by
  cases frames with
  | nil => exact k.outer h ht hr
  | cons f frames => exact fun u hu hru => h u hu (k.trans hr hru)

/-- Code that ends well above good frames leaves a good configuration, wherever it stops. -/
theorem enter_ok {code : Code σ C Unit} {frames : List (C × Code σ C Unit)} {s : σ}
    (h : code.wp I R (fun _ u => I u ∧ FramesOk I J R frames u) s) :
    I (Config.enter code s frames).state ∧
      FramesOk I J R (Config.enter code s frames).frames (Config.enter code s frames).state := by
  induction code generalizing s with
  | pure a => exact h
  | act f next ih => exact ih h
  | ask next ih => exact ih s h
  | call c next ih => exact h

/-- The invariant of a configuration: `I` holds, and every running callback can return. -/
def Good (I J : σ → Prop) (R : σ → σ → Prop) (c : Config σ C) : Prop :=
  I c.state ∧ FramesOk I J R c.frames c.state

theorem Keeps.step (k : m.Keeps cond I J R) {c d : Config σ C} {e : Event Op Top} (h : Good I J R c)
    (hc : cond.holds c e) (hs : m.step c e = some d) : Good I J R d := by
  obtain ⟨s, frames⟩ := c
  obtain ⟨hI, hF⟩ := h
  cases e with
  | call op =>
    obtain rfl := Option.some.inj hs
    refine enter_ok (Code.wp_mono ?_ (k.api hI hc))
    intro _ t ht
    exact ⟨ht.1, k.framesOk_mono hF ht.1 ht.2⟩
  | ret =>
    cases frames with
    | nil => cases hs
    | cons f frames =>
      obtain rfl := Option.some.inj hs
      exact enter_ok (hF s hI (k.refl s))
  | top t =>
    cases frames with
    | nil =>
      simp only [Reentrant.step] at hs
      split at hs
      · rename_i hen
        obtain rfl := Option.some.inj hs
        exact enter_ok (Code.wp_mono (fun _ u hu => ⟨k.inner hu, hu⟩) (k.top hF hen hc))
      · cases hs
    | cons f frames => cases hs

/-- The invariant holds in every configuration of every run whose steps meet the condition. -/
theorem Keeps.run (k : m.Keeps cond I J R) {s : σ} {es : List (Event Op Top)} {c : Config σ C} (hs : J s)
    (h : m.stepper.Run (fun c e => cond.holds c e) ⟨s, []⟩ es c) : Good I J R c :=
  h.invariant (I := Good I J R) (fun hg hc hstep => k.step hg hc hstep) ⟨k.inner hs, hs⟩

end Reentrant
end Lib
