import Mathlib.Algebra.BigOperators.Group.Multiset.Basic
import Muduo.Lib.Monitor
import Muduo.Lib.Simulation

/-! # What goes through a monitor

The calls bring something to the state of a monitor, and they are given something back. What was brought is at every
point in the calls that have not got the mutex yet, in the state, or in the results. -/

namespace Lib.Monitor
variable {S C O R X : Type}

/-- The state that a call leaves, and its result. -/
def Attempt.outcome : Attempt S C R → Option (S × R)
  | .wait _ => none
  | .leave s r => some (s, r)
  | .leaveNotify s r _ => some (s, r)
  | .notifyLeave s r _ => some (s, r)

/-- What is known of an attempt that waits, and of one that leaves. -/
def Attempt.Meets (waits : C → Prop) (effect : R → S → Option C → Prop) : Attempt S C R → Prop
  | .wait c => waits c
  | .leave s r => effect r s none
  | .leaveNotify s r c => effect r s (some c)
  | .notifyLeave s r c => effect r s (some c)

namespace Attempt.Meets
variable {a : Attempt S C R} {s : S} {r : R} {c : C} {d : Option C} {waits : C → Prop} {effect : R → S → Option C → Prop}

theorem of_wait (h : a.Meets waits effect) (hwait : a = .wait c) : waits c := by
  rw [hwait] at h
  exact h

theorem of_left (h : a.Meets waits effect) (hleft : a.left = some (s, d)) : ∃ r, effect r s d := by
  cases a with
  | wait => cases hleft
  | leave | leaveNotify | notifyLeave =>
    cases hleft
    exact ⟨_, h⟩

theorem of_outcome (h : a.Meets waits effect) (houtcome : a.outcome = some (s, r)) : ∃ d, effect r s d := by
  cases a with
  | wait => cases houtcome
  | leave | leaveNotify | notifyLeave =>
    cases houtcome
    exact ⟨_, h⟩

end Attempt.Meets

section Balance
variable {M : Type} [AddCommMonoid M]

/-- What a call that leaves brings is added to the stock of the state, and what it is given is taken from it. -/
structure Balance (m : Monitor S C O R X) (input : O → M) (stock : S → M) (output : R → M) : Prop where
  left : ∀ {s o t r}, (m.attempt o s).outcome = some (t, r) → stock t + output r = stock s + input o
  external : ∀ {s x}, stock (m.external x s) = stock s

/-- What a call still brings. -/
def Position.brings (input : O → M) : Position C O R → M
  | .locking o => input o
  | .waiting o _ => input o
  | _ => 0

/-- What a call was given. -/
def Position.given (output : R → M) : Position C O R → M
  | .notifying _ r => output r
  | .returned r => output r
  | _ => 0

def Event.brings (input : O → M) : Event C O X → M
  | .call o => input o
  | _ => 0

variable (input : O → M) (output : R → M) {l l' : List (Position C O R)} {x y : Position C O R}

def Position.worth (p : Position C O R) : M := p.brings input + p.given output

theorem Position.worth_locking (o : O) : (.locking o : Position C O R).worth input output = input o := add_zero _

theorem Position.worth_returned (r : R) : (.returned r : Position C O R).worth input output = output r := zero_add _

theorem Position.worth_notifying (c : C) (r : R) : (.notifying c r : Position C O R).worth input output = output r :=
  zero_add _

theorem Position.worth_wake (p : Position C O R) : p.wake.worth input output = p.worth input output := by
  cases p <;> rfl

/-- What the calls still bring and what they were given. -/
def carried (l : List (Position C O R)) : M := (l.map (·.worth input output)).sum

theorem carried_eq : carried input output l = (l.map (·.brings input)).sum + (l.map (·.given output)).sum :=
  List.sum_map_add

theorem carried_replace (h : Replaces l l' x y) :
    ∃ rest, carried input output l = x.worth input output + rest ∧
      carried input output l' = y.worth input output + rest := by
  obtain ⟨rest, hl, hl'⟩ := h
  refine ⟨carried input output rest, ?_, ?_⟩
  · rw [carried, (hl.map _).sum_eq, List.map_cons, List.sum_cons, ← carried]
  · rw [carried, (hl'.map _).sum_eq, List.map_cons, List.sum_cons, ← carried]

/-- A call moves on with all that it carries. -/
theorem carried_set {i : Nat} (h : l[i]? = some x) (hsame : y.worth input output = x.worth input output) :
    carried input output (l.set i y) = carried input output l := by
  obtain ⟨rest, hold, hnew⟩ := carried_replace input output (replaces_set h y)
  rw [hold, hnew, hsame]

/-- Calls that are given nothing. -/
theorem sum_given_zero : (l.map (·.given fun _ => (0 : M))).sum = 0 := by
  refine List.sum_eq_zero fun x hx => ?_
  obtain ⟨p, -, rfl⟩ := List.mem_map.mp hx
  cases p <;> rfl

variable [DecidableEq C] {m : Monitor S C O R X} {s t : State S C O R} {stock : S → M}

theorem carried_notifyOne {c : C} {woken : Option Nat} (h : notifyOne c woken l = some l') :
    carried input output l' = carried input output l := by
  cases woken with
  | none =>
    obtain ⟨-, heq⟩ := Option.ite_none_left_eq_some.mp h
    rw [Option.some.inj heq]
  | some j =>
    obtain ⟨p, hp, rfl⟩ := Option.map_eq_some_iff.mp h
    exact carried_set input output (Option.filter_eq_some_iff.mp hp).1 (p.worth_wake input output)

theorem carried_notifyAll (c : C) : carried input output (l.map (·.wakeFrom c)) = carried input output l := by
  have hsame : ∀ p : Position C O R, (p.wakeFrom c).worth input output = p.worth input output := by
    intro p
    rw [Position.wakeFrom]
    split
    · exact p.worth_wake input output
    · rfl
  rw [carried, List.map_map]
  exact congrArg List.sum (List.map_congr_left fun p _ => hsame p)

namespace Balance
variable {input output}

theorem enter (hb : m.Balance input stock output) {i : Nat} {o : O} {woken : Option Nat}
    (ho : s.calls[i]? = some (.locking o)) (hstep : m.enter s i o woken = some t) :
    stock t.shared + carried input output t.calls = stock s.shared + carried input output s.calls := by
  -- The call leaves with a result, and keeps it whatever it still has to do.
  have hleft : ∀ {u : S} {r : R} {q : Position C O R}, (m.attempt o s.shared).outcome = some (u, r) →
      q.worth input output = output r →
        stock u + carried input output (s.calls.set i q) = stock s.shared + carried input output s.calls := by
    intro u r q houtcome hq
    obtain ⟨rest, hold, hnew⟩ := carried_replace input output (replaces_set ho q)
    rw [hold, hnew, hq, Position.worth_locking, ← add_assoc, hb.left houtcome, add_assoc]
  simp only [Monitor.enter] at hstep
  split at hstep
  · rename_i c _
    cases hstep
    rw [carried_set input output (y := .waiting o c) ho rfl]
  · rename_i u r hattempt
    cases hstep
    exact hleft (congrArg Attempt.outcome hattempt) (Position.worth_returned ..)
  · rename_i u r c hattempt
    cases hstep
    exact hleft (congrArg Attempt.outcome hattempt) (Position.worth_notifying ..)
  · rename_i u r c hattempt
    obtain ⟨calls, hnotify, rfl⟩ := Option.map_eq_some_iff.mp hstep
    rw [carried_notifyOne input output hnotify]
    exact hleft (congrArg Attempt.outcome hattempt) (Position.worth_returned ..)

theorem step (hb : m.Balance input stock output) {e : Event C O X} (hstep : m.step s e = some t) :
    stock t.shared + carried input output t.calls =
      stock s.shared + carried input output s.calls + e.brings input := by
  cases e with
  | call o =>
    cases hstep
    rw [add_assoc]
    refine congrArg (stock s.shared + ·) ?_
    rw [carried, List.map_append, List.sum_append, List.map_singleton, List.sum_singleton, Position.worth_locking]
    rfl
  | enter i woken =>
    simp only [Monitor.step] at hstep
    split at hstep
    · rename_i o ho
      exact (hb.enter ho hstep).trans (add_zero _).symm
    · cases hstep
  | notify i woken =>
    simp only [Monitor.step] at hstep
    split at hstep
    · rename_i c r hi
      obtain ⟨calls, hnotify, rfl⟩ := Option.map_eq_some_iff.mp hstep
      rw [carried_notifyOne input output hnotify, carried_set input output (y := .returned r) hi rfl]
      exact (add_zero _).symm
    · cases hstep
  | wakeUp i =>
    obtain ⟨p, hp, rfl⟩ := Option.map_eq_some_iff.mp hstep
    rw [carried_set input output hp (p.worth_wake input output)]
    exact (add_zero _).symm
  | notifyAll c =>
    cases hstep
    rw [carried_notifyAll]
    exact (add_zero _).symm
  | external x =>
    cases hstep
    rw [hb.external]
    exact (add_zero _).symm

theorem carried_run (hb : m.Balance input stock output) {cond : State S C O R → Event C O X → Prop}
    {es : List (Event C O X)} (h : m.stepper.Run cond s es t) :
    stock t.shared + carried input output t.calls =
      stock s.shared + carried input output s.calls + (es.map (·.brings input)).sum := by
  induction h with
  | nil => rw [List.map_nil, List.sum_nil, add_zero]
  | cons _ hstep _ ih => rw [ih, hb.step hstep, List.map_cons, List.sum_cons, ← add_assoc]

/-- In every run what was brought is still to come, in the state, or given. -/
theorem run (hb : m.Balance input stock output) {s₀ : S} {cond : State S C O R → Event C O X → Prop}
    {es : List (Event C O X)} (h : m.stepper.Run cond ⟨s₀, []⟩ es t) :
    stock s₀ + (es.map (·.brings input)).sum =
      (t.calls.map (·.brings input)).sum + stock t.shared + (t.calls.map (·.given output)).sum := by
  have hrun := hb.carried_run h
  rw [carried_eq, carried, List.map_nil, List.sum_nil, add_zero] at hrun
  rw [← hrun, ← add_assoc, add_comm (stock t.shared)]

end Balance
end Balance

/-! ## Calls that no longer wait -/

section Waiting
variable [DecidableEq C] {m : Monitor S C O R X} {s t : State S C O R} {o : O} {c : C}

theorem waiting_of_notifyOne {d : C} {woken : Option Nat} {l l' : List (Position C O R)}
    (h : notifyOne d woken l = some l') (hmem : .waiting o c ∈ l') : .waiting o c ∈ l := by
  cases woken with
  | none =>
    obtain ⟨-, heq⟩ := Option.ite_none_left_eq_some.mp h
    rwa [Option.some.inj heq]
  | some j =>
    obtain ⟨p, -, rfl⟩ := Option.map_eq_some_iff.mp h
    refine (List.mem_or_eq_of_mem_set hmem).resolve_right fun heq => ?_
    cases p <;> cases heq

/-- A call that waits has waited before, or its attempt has just made it wait. -/
theorem waiting_of_step {e : Event C O X} (hstep : m.step s e = some t) (hmem : .waiting o c ∈ t.calls) :
    .waiting o c ∈ s.calls ∨ m.attempt o s.shared = .wait c := by
  have hset : ∀ {i : Nat} {r : R}, .waiting o c ∈ s.calls.set i (.returned r) → .waiting o c ∈ s.calls := by
    intro i r h
    refine (List.mem_or_eq_of_mem_set h).resolve_right fun heq => ?_
    cases heq
  cases e with
  | call o' =>
    cases hstep
    refine .inl ((List.mem_append.mp hmem).resolve_right fun h => ?_)
    cases List.mem_singleton.mp h
  | enter i woken =>
    simp only [step] at hstep
    split at hstep
    · simp only [enter] at hstep
      split at hstep
      · rename_i d hattempt
        cases hstep
        rcases List.mem_or_eq_of_mem_set hmem with h | heq
        · exact .inl h
        · cases heq
          exact .inr hattempt
      · cases hstep
        exact .inl (hset hmem)
      · cases hstep
        refine .inl ((List.mem_or_eq_of_mem_set hmem).resolve_right fun heq => ?_)
        cases heq
      · obtain ⟨calls, hnotify, rfl⟩ := Option.map_eq_some_iff.mp hstep
        exact .inl (hset (waiting_of_notifyOne hnotify hmem))
    · cases hstep
  | notify i woken =>
    simp only [step] at hstep
    split at hstep
    · obtain ⟨calls, hnotify, rfl⟩ := Option.map_eq_some_iff.mp hstep
      exact .inl (hset (waiting_of_notifyOne hnotify hmem))
    · cases hstep
  | wakeUp i =>
    obtain ⟨p, -, rfl⟩ := Option.map_eq_some_iff.mp hstep
    refine .inl ((List.mem_or_eq_of_mem_set hmem).resolve_right fun heq => ?_)
    cases p <;> cases heq
  | notifyAll d =>
    cases hstep
    obtain ⟨p, hp, heq⟩ := List.mem_map.mp hmem
    rw [Position.wakeFrom] at heq
    split at heq
    · cases p <;> cases heq
    · exact .inl (heq ▸ hp)
  | external x =>
    cases hstep
    exact .inl hmem

/-- A call does not wait from now on, if it is not waiting and none of its attempts waits. -/
theorem not_waiting_of_run {P : S → Prop} {cond : State S C O R → Event C O X → Prop} {es : List (Event C O X)}
    (hleft : ∀ {s t o d}, P s → (m.attempt o s).left = some (t, d) → P t) (hexternal : ∀ {s x}, P s → P (m.external x s))
    (hwait : ∀ {s c}, P s → m.attempt o s ≠ .wait c) (h : m.stepper.Run cond s es t) (hs : P s.shared)
    (hnot : ∀ c, .waiting o c ∉ s.calls) : ∀ c, .waiting o c ∉ t.calls := by
  have hinv : P t.shared ∧ ∀ c, .waiting o c ∉ t.calls := by
    refine h.invariant (I := fun s => P s.shared ∧ ∀ c, .waiting o c ∉ s.calls) ?_ ⟨hs, hnot⟩
    intro s t e hI _ hstep
    refine ⟨?_, fun c hmem => ?_⟩
    · rcases shared_of_step hstep with heq | ⟨o, d, hattempt⟩ | ⟨x, heq⟩
      · exact heq ▸ hI.1
      · exact hleft hI.1 hattempt
      · exact heq ▸ hexternal hI.1
    · rcases waiting_of_step hstep hmem with hmem | hattempt
      · exact hI.2 c hmem
      · exact hwait hI.1 hattempt
  exact hinv.2

/-- After `notify_all` nobody waits on the condition variable. -/
theorem not_waiting_notifyAll (l : List (Position C O R)) (o : O) (c : C) : .waiting o c ∉ l.map (·.wakeFrom c) := by
  intro hmem
  obtain ⟨p, -, heq⟩ := List.mem_map.mp hmem
  have hwaits : (p.wakeFrom c).waitsOn c = false := by
    rw [Position.wakeFrom]
    split
    · exact Position.waitsOn_wake
    · rename_i hnot
      exact Bool.not_eq_true _ ▸ hnot
  rw [heq] at hwaits
  exact absurd rfl (of_decide_eq_false hwaits)

end Waiting
end Lib.Monitor
