import Muduo.Lib.Stepper
import Muduo.Lib.Threads

/-! # Monitors

A state under a mutex, with condition variables. A call takes the mutex and makes an attempt: it waits on a condition
variable, or it changes the state and leaves. A call that leaves may notify one waiter, after the mutex is unlocked or
before. Waiters also wake up for no reason, and a call that wakes up makes another attempt. -/

namespace Lib

namespace Monitor

/-- What a call does with the mutex held: `wait` on a condition variable, or leave with a new state and a result. -/
inductive Attempt (S C R : Type) where
  | wait (c : C)
  | leave (s : S) (result : R)
  /-- The mutex is unlocked, and one waiter is notified some time later. -/
  | leaveNotify (s : S) (result : R) (c : C)
  /-- One waiter is notified, and the mutex is unlocked. -/
  | notifyLeave (s : S) (result : R) (c : C)

/-- The state that a call leaves, and what it notifies. -/
def Attempt.left {S C R : Type} : Attempt S C R → Option (S × Option C)
  | .wait _ => none
  | .leave s _ => some (s, none)
  | .leaveNotify s _ c => some (s, some c)
  | .notifyLeave s _ c => some (s, some c)

end Monitor

/-- The calls `O` of a monitor, and the events `X` that change its state without the mutex. -/
structure Monitor (S C O R X : Type) where
  attempt : O → S → Monitor.Attempt S C R
  external : X → S → S

namespace Monitor

/-- Where a call is. -/
inductive Position (C O R : Type) where
  /-- It takes the mutex next: it is new, or it was notified, or it woke up. -/
  | locking (o : O)
  | waiting (o : O) (c : C)
  | notifying (c : C) (result : R)
  | returned (result : R)
  deriving DecidableEq

structure State (S C O R : Type) where
  shared : S
  calls : List (Position C O R) := []

inductive Event (C O X : Type) where
  | call (o : O)
  /-- The call `i` takes the mutex and makes its attempt; if it notifies with the mutex held, then it wakes `woken`. -/
  | enter (i : Nat) (woken : Option Nat)
  | notify (i : Nat) (woken : Option Nat)
  | wakeUp (i : Nat)
  | notifyAll (c : C)
  | external (x : X)

variable {S C O R X : Type} [DecidableEq C] {m : Monitor S C O R X} {s t : State S C O R} {c : C}
variable {l l' : List (Position C O R)}

namespace Position

def waitsOn (c : C) : Position C O R → Bool
  | .waiting _ d => d = c
  | _ => false

def wake : Position C O R → Position C O R
  | .waiting o _ => .locking o
  | p => p

def wakeFrom (c : C) (p : Position C O R) : Position C O R := if p.waitsOn c then p.wake else p

/-- It can go on only if another call or an event helps, or not at all. -/
def blockedOrFinished : Position C O R → Bool
  | .waiting .. => true
  | .returned _ => true
  | _ => false

end Position

/-- `notify_one`: any one of the waiters wakes up, and none only if there is none. -/
def notifyOne (c : C) (woken : Option Nat) (l : List (Position C O R)) : Option (List (Position C O R)) :=
  match woken with
  | none => if l.any (·.waitsOn c) then none else some l
  | some j => (l[j]?.filter (·.waitsOn c)).map fun p => l.set j p.wake

def enter (m : Monitor S C O R X) (s : State S C O R) (i : Nat) (o : O) (woken : Option Nat) :
    Option (State S C O R) :=
  match m.attempt o s.shared with
  | .wait c => some { s with calls := s.calls.set i (.waiting o c) }
  | .leave t r => some ⟨t, s.calls.set i (.returned r)⟩
  | .leaveNotify t r c => some ⟨t, s.calls.set i (.notifying c r)⟩
  | .notifyLeave t r c => (notifyOne c woken (s.calls.set i (.returned r))).map fun calls => ⟨t, calls⟩

def step (m : Monitor S C O R X) (s : State S C O R) : Event C O X → Option (State S C O R)
  | .call o => some { s with calls := s.calls ++ [.locking o] }
  | .enter i woken =>
    match s.calls[i]? with
    | some (.locking o) => m.enter s i o woken
    | _ => none
  | .notify i woken =>
    match s.calls[i]? with
    | some (.notifying c r) => (notifyOne c woken (s.calls.set i (.returned r))).map fun calls => { s with calls }
    | _ => none
  | .wakeUp i => s.calls[i]?.map fun p => { s with calls := s.calls.set i p.wake }
  | .notifyAll c => some { s with calls := s.calls.map (·.wakeFrom c) }
  | .external x => some { s with shared := m.external x s.shared }

def stepper (m : Monitor S C O R X) : Stepper (State S C O R) (Event C O X) := ⟨m.step⟩

/-! ## What the calls keep -/

/-- The state changes by a call that leaves, or by an external event. -/
theorem shared_of_step {e : Event C O X} (h : m.step s e = some t) :
    t.shared = s.shared ∨ (∃ o d, (m.attempt o s.shared).left = some (t.shared, d)) ∨
      ∃ x, t.shared = m.external x s.shared := by
  cases e with
  | call o =>
    cases h
    exact .inl rfl
  | enter i woken =>
    simp only [step] at h
    split at h
    · rename_i o _
      simp only [enter] at h
      split at h
      · cases h
        exact .inl rfl
      · rename_i r hattempt
        cases h
        exact .inr (.inl ⟨o, none, by rw [hattempt, Attempt.left]⟩)
      · rename_i r c hattempt
        cases h
        exact .inr (.inl ⟨o, some c, by rw [hattempt, Attempt.left]⟩)
      · rename_i r c hattempt
        obtain ⟨calls, -, rfl⟩ := Option.map_eq_some_iff.mp h
        exact .inr (.inl ⟨o, some c, by rw [hattempt, Attempt.left]⟩)
    · cases h
  | notify i woken =>
    simp only [step] at h
    split at h
    · obtain ⟨calls, -, rfl⟩ := Option.map_eq_some_iff.mp h
      exact .inl rfl
    · cases h
  | wakeUp i =>
    obtain ⟨p, -, rfl⟩ := Option.map_eq_some_iff.mp h
    exact .inl rfl
  | notifyAll d =>
    cases h
    exact .inl rfl
  | external x =>
    cases h
    exact .inr (.inr ⟨x, rfl⟩)

/-- A monitor invariant: what every call and every external event keeps holds in every run. -/
theorem shared_invariant {I : S → Prop} {cond : State S C O R → Event C O X → Prop} {es : List (Event C O X)}
    (hleft : ∀ {s t o d}, I s → (m.attempt o s).left = some (t, d) → I t)
    (hexternal : ∀ {s x}, I s → I (m.external x s)) (hs : I s.shared) (run : m.stepper.Run cond s es t) :
    I t.shared := by
  refine run.invariant (I := fun s => I s.shared) (fun h _ hstep => ?_) hs
  rcases shared_of_step hstep with heq | ⟨o, d, hattempt⟩ | ⟨x, heq⟩
  · exact heq ▸ h
  · exact hleft h hattempt
  · exact heq ▸ hexternal h

/-! ## Lost wakeups -/

/-- It takes the mutex next for a call of the kind, or it will notify a waiter of `c`. -/
def Position.helps (c : C) (kind : O → Bool) : Position C O R → Bool
  | .locking o => kind o
  | .notifying d _ => d = c
  | _ => false

/-- `room` is how many calls of a kind can go on in a state; those that wait on `c` are of the kind. They wait only if none
can go on, and one that leaves takes its room with it; room is made only together with a notification. -/
structure Demand (m : Monitor S C O R X) (c : C) (room : S → Nat) (kind : O → Bool) : Prop where
  wait : ∀ {s o d}, m.attempt o s = .wait d → (d = c → kind o) ∧ (kind o → room s = 0)
  left : ∀ {s o t d}, (m.attempt o s).left = some (t, d) →
    room t = 0 ∨ room t + (kind o).toNat ≤ room s + (decide (d = some c)).toNat
  external : ∀ {s x}, room (m.external x s) ≤ room s

/-- If a call waits on `c`, then the calls that help are enough for the room there is. -/
structure Covered (c : C) (kind : O → Bool) (room : Nat) (l : List (Position C O R)) : Prop where
  waiters : ∀ o, .waiting o c ∈ l → kind o
  le : (∃ o, .waiting o c ∈ l) → room ≤ l.countP (·.helps c kind)

variable {kind : O → Bool} {n n' : Nat} {x y : Position C O R}

theorem Covered.mono (h : Covered c kind n l) (hle : n' ≤ n) : Covered c kind n' l :=
  ⟨h.waiters, fun hw => hle.trans (h.le hw)⟩

theorem Covered.zero (h : ∀ o, .waiting o c ∈ l → kind o) : Covered c kind 0 l := ⟨h, fun _ => Nat.zero_le _⟩

theorem Covered.nil : Covered c kind n ([] : List (Position C O R)) := by
  refine ⟨fun o ho => absurd ho List.not_mem_nil, fun hw => ?_⟩
  obtain ⟨o, ho⟩ := hw
  exact absurd ho List.not_mem_nil

/-- A call moves on, but not to wait on `c`. -/
theorem Covered.replace (h : Covered c kind n l) (hr : Replaces l l' x y) (hy : y.waitsOn c = false)
    (hle : n' = 0 ∨ n' + (x.helps c kind).toNat ≤ n + (y.helps c kind).toNat) : Covered c kind n' l' := by
  have hold : ∀ o, .waiting o c ∈ l' → .waiting o c ∈ l := by
    have hmem : ∀ z ∈ l', z = y ∨ z ∈ l := hr.forall_mem (fun _ hz => .inr hz) (.inl rfl)
    intro o ho
    refine (hmem _ ho).resolve_left fun heq => ?_
    rw [← heq] at hy
    exact absurd rfl (of_decide_eq_false hy)
  have hwaiters : ∀ o, .waiting o c ∈ l' → kind o := fun o ho => h.waiters o (hold o ho)
  rcases hle with rfl | hle
  · exact .zero hwaiters
  · refine ⟨hwaiters, fun hw => ?_⟩
    obtain ⟨o, ho⟩ := hw
    have hn := h.le ⟨o, hold o ho⟩
    have hcount := hr.countP (·.helps c kind)
    simp only [Bool.toNat, Bool.cond_eq_ite] at hle
    omega

theorem Position.waitsOn_iff {p : Position C O R} : p.waitsOn c ↔ ∃ o, p = .waiting o c := by
  cases p <;> simp [waitsOn]

theorem Position.waitsOn_wake {p : Position C O R} : p.wake.waitsOn c = false := by
  cases p <;> rfl

theorem Position.helps_wake {p : Position C O R} (h : p.helps c kind) : p.wake.helps c kind := by
  cases p with
  | waiting o d => cases h
  | _ => exact h

/-- A notification makes up for one more, as the call that wakes up is of the kind. -/
theorem Covered.notifyOne {d : C} {woken : Option Nat} (h : Covered c kind n l)
    (hl : notifyOne d woken l = some l') (hle : n' ≤ n + (decide (d = c)).toNat) : Covered c kind n' l' := by
  cases woken with
  | none =>
    obtain ⟨hnone, heq⟩ := Option.ite_none_left_eq_some.mp hl
    cases heq
    refine ⟨h.waiters, fun hw => ?_⟩
    have hne : d ≠ c := by
      rintro rfl
      obtain ⟨o, ho⟩ := hw
      exact hnone (List.any_eq_true.mpr ⟨_, ho, Position.waitsOn_iff.mpr ⟨o, rfl⟩⟩)
    rw [decide_eq_false hne] at hle
    exact hle.trans (h.le hw)
  | some j =>
    obtain ⟨p, hp, rfl⟩ := Option.map_eq_some_iff.mp hl
    obtain ⟨hj, hwaits⟩ := Option.filter_eq_some_iff.mp hp
    obtain ⟨o, rfl⟩ := Position.waitsOn_iff.mp hwaits
    refine h.replace (replaces_set hj _) Position.waitsOn_wake (.inr (hle.trans (Nat.add_le_add_left ?_ n)))
    rcases eq_or_ne d c with rfl | hne
    · have hkind := h.waiters o (List.mem_of_getElem? hj)
      simp only [Position.wake, Position.helps, hkind, decide_true, le_refl]
    · rw [decide_eq_false hne]
      exact Nat.zero_le _

theorem Covered.call (h : Covered c kind n l) (o : O) : Covered c kind n (l ++ [.locking o]) := by
  have hold : ∀ o', .waiting o' c ∈ l ++ [.locking o] → .waiting o' c ∈ l := by
    intro o' ho
    rcases List.mem_append.mp ho with ho | ho
    · exact ho
    · cases List.mem_singleton.mp ho
  refine ⟨fun o' ho => h.waiters o' (hold o' ho), fun hw => ?_⟩
  obtain ⟨o', ho⟩ := hw
  rw [List.countP_append]
  exact (h.le ⟨o', hold o' ho⟩).trans (Nat.le_add_right _ _)

theorem Covered.notifyAll (h : Covered c kind n l) (d : C) : Covered c kind n (l.map (·.wakeFrom d)) := by
  have hold : ∀ o, .waiting o c ∈ l.map (·.wakeFrom d) → .waiting o c ∈ l := by
    intro o ho
    obtain ⟨p, hp, heq⟩ := List.mem_map.mp ho
    rw [Position.wakeFrom] at heq
    split at heq
    · have hwaits : p.wake.waitsOn c := Position.waitsOn_iff.mpr ⟨o, heq⟩
      rw [Position.waitsOn_wake] at hwaits
      cases hwaits
    · exact heq ▸ hp
  refine ⟨fun o ho => h.waiters o (hold o ho), fun hw => ?_⟩
  obtain ⟨o, ho⟩ := hw
  rw [List.countP_map]
  refine (h.le ⟨o, hold o ho⟩).trans (List.countP_mono_left fun p _ hp => ?_)
  rw [Function.comp_apply, Position.wakeFrom]
  split
  · exact Position.helps_wake hp
  · exact hp

theorem Covered.wakeUp {i : Nat} (h : Covered c kind n l) (hx : l[i]? = some x) : Covered c kind n (l.set i x.wake) :=
  h.replace (replaces_set hx _) Position.waitsOn_wake
    (.inr (Nat.add_le_add_left (Bool.toNat_le_toNat Position.helps_wake) n))

/-- A call waits: if on `c`, then there is no room. -/
theorem Covered.wait {i : Nat} {o : O} {d : C} (h : Covered c kind n l) (ho : l[i]? = some (.locking o))
    (hwait : (d = c → kind o) ∧ (kind o → n = 0)) : Covered c kind n (l.set i (.waiting o d)) := by
  have hr := replaces_set ho (.waiting o d)
  rcases eq_or_ne d c with rfl | hne
  · rw [hwait.2 (hwait.1 rfl)]
    have hwaiters : ∀ z ∈ l.set i (.waiting o d), ∀ o', z = .waiting o' d → kind o' := by
      refine hr.forall_mem (fun z hz o' heq => h.waiters o' (heq ▸ hz)) fun o' heq => ?_
      cases heq
      exact hwait.1 rfl
    exact .zero fun o' ho' => hwaiters _ ho' o' rfl
  · refine h.replace hr (decide_eq_false hne) ?_
    cases hkind : kind o with
    | true => exact .inl (hwait.2 hkind)
    | false =>
      simp only [Position.helps, hkind]
      exact .inr le_rfl

theorem Covered.notify {i : Nat} {d : C} {r : R} {woken : Option Nat} {calls : List (Position C O R)}
    (h : Covered c kind n l) (hi : l[i]? = some (.notifying d r))
    (hnotify : Monitor.notifyOne d woken (l.set i (.returned r)) = some calls) : Covered c kind n calls := by
  have hset : Covered c kind (n - (decide (d = c)).toNat) (l.set i (.returned r)) := by
    refine h.replace (replaces_set hi _) rfl ?_
    simp only [Position.helps, Bool.toNat_false]
    omega
  exact hset.notifyOne hnotify (Nat.sub_le_iff_le_add.mp le_rfl)

namespace Demand
variable {room : S → Nat}

/-- One attempt keeps the waiters of `c` covered. -/
theorem enter {i : Nat} {o : O} {woken : Option Nat} (hd : m.Demand c room kind)
    (h : Covered c kind (room s.shared) s.calls) (ho : s.calls[i]? = some (.locking o))
    (hstep : m.enter s i o woken = some t) : Covered c kind (room t.shared) t.calls := by
  simp only [Monitor.enter] at hstep
  split at hstep
  · rename_i d hattempt
    cases hstep
    exact h.wait ho (hd.wait hattempt)
  · rename_i u r hattempt
    cases hstep
    exact h.replace (replaces_set ho _) rfl (hd.left (congrArg Attempt.left hattempt))
  · rename_i u r d hattempt
    cases hstep
    refine h.replace (replaces_set ho _) rfl ?_
    have hroom := hd.left (congrArg Attempt.left hattempt)
    simp only [Option.some.injEq] at hroom
    exact hroom
  · rename_i u r d hattempt
    obtain ⟨calls, hnotify, rfl⟩ := Option.map_eq_some_iff.mp hstep
    have hroom := hd.left (congrArg Attempt.left hattempt)
    simp only [Option.some.injEq] at hroom
    -- Without its notification the call would leave too much room by one.
    have hset : Covered c kind (room u - (decide (d = c)).toNat) (s.calls.set i (.returned r)) := by
      refine h.replace (replaces_set ho _) rfl ?_
      simp only [Position.helps, Bool.toNat_false]
      omega
    exact hset.notifyOne hnotify (Nat.sub_le_iff_le_add.mp le_rfl)

theorem step {e : Event C O X} (hd : m.Demand c room kind) (h : Covered c kind (room s.shared) s.calls)
    (hstep : m.step s e = some t) : Covered c kind (room t.shared) t.calls := by
  cases e with
  | call o =>
    cases hstep
    exact h.call o
  | enter i woken =>
    simp only [Monitor.step] at hstep
    split at hstep
    · rename_i o ho
      exact hd.enter h ho hstep
    · cases hstep
  | notify i woken =>
    simp only [Monitor.step] at hstep
    split at hstep
    · rename_i d r hi
      obtain ⟨calls, hnotify, rfl⟩ := Option.map_eq_some_iff.mp hstep
      exact h.notify hi hnotify
    · cases hstep
  | wakeUp i =>
    obtain ⟨x, hx, rfl⟩ := Option.map_eq_some_iff.mp hstep
    exact h.wakeUp hx
  | notifyAll d =>
    cases hstep
    exact h.notifyAll d
  | external x =>
    cases hstep
    exact h.mono hd.external

/-- In every run the waiters are covered, so no wakeup is lost. -/
theorem covered {s₀ : S} {cond : State S C O R → Event C O X → Prop} {es : List (Event C O X)}
    (hd : m.Demand c room kind) (run : m.stepper.Run cond ⟨s₀, []⟩ es t) : Covered c kind (room t.shared) t.calls :=
  run.invariant (I := fun t => Covered c kind (room t.shared) t.calls) (fun h _ hstep => hd.step h hstep) .nil

end Demand

/-- If a call waits on `c` and none can go on, then there is no room. -/
theorem Covered.eq_zero_of_blocked {o : O} (h : Covered c kind n l) (ho : .waiting o c ∈ l)
    (hl : ∀ p ∈ l, p.blockedOrFinished) : n = 0 := by
  have hle := h.le ⟨o, ho⟩
  have hcount : l.countP (·.helps c kind) = 0 := by
    refine List.countP_eq_zero.mpr fun p hp => ?_
    have hblocked := hl p hp
    cases p with
    | waiting o d => exact Bool.false_ne_true
    | returned r => exact Bool.false_ne_true
    | _ => cases hblocked
  omega

end Monitor
end Lib
