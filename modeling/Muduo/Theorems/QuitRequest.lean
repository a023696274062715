import Muduo.EventLoopThread

/-! # The quit request of the owner

`loop` clears `quit_` when it is entered, after `loop_` is published. A request that comes later is kept until the
loop is left; one that comes before is lost. -/

namespace Muduo
open Lib

/-- `loop` has cleared `quit_`. -/
def ThreadAt.hasEntered : ThreadAt → Bool
  | .inLoop | .clear | .finished => true
  | _ => false

/-- The loop thread has left `loop`. -/
def ThreadAt.hasLeft : ThreadAt → Bool
  | .clear | .finished => true
  | _ => false

/-- The destructor has stored `quit_`. -/
def OwnerAt.hasStored : OwnerAt → Bool
  | .wakeup | .join => true
  | _ => false

def LoopEvent.entersLoop {F Tid : Type} : LoopEvent F Tid → Bool
  | .enterLoop => true
  | _ => false

/-- Only `loop` clears `quit_`, and only when it is entered. -/
theorem LoopThreads.quit_of_step {F Tid : Type} [DecidableEq Tid] {loopThread : Tid} {s t : LoopThreads F Tid}
    {e : LoopEvent F Tid} (he : e.entersLoop = false) (h : s.step loopThread e = some t) (hquit : s.quit = true) :
    t.quit = true := by
  cases e with
  | pushBack thread f =>
    simp only [step, threadStep] at h
    split at h
    · cases h
      exact hquit
    · cases h
  | wakeupIfNeeded thread =>
    simp only [step, threadStep] at h
    split at h
    · cases h
      exact hquit
    · cases h
  | quit thread =>
    cases h
    rfl
  | enterLoop => cases he
  | runFunctor =>
    simp only [step, loopStep] at h
    split at h
    · cases h
    · split at h
      · cases h
        exact hquit
      · cases h
  | _ =>
    simp only [step, loopStep] at h
    split at h
    · cases h
    · split at h
      · cases h
        exact hquit
      · cases h

namespace EventLoopThread
variable {F Tid : Type} {s t : EventLoopThread F Tid}

/-- The destructor stores `quit_` only when `loop` has cleared it. -/
def QuitsEntered (s : EventLoopThread F Tid) : Event F Tid → Prop
  | .owner => s.ownerAt = .storeQuit → s.threadAt.hasEntered = true
  | _ => True

instance (s : EventLoopThread F Tid) : ∀ e, Decidable (QuitsEntered s e)
  | .owner => inferInstanceAs (Decidable (s.ownerAt = .storeQuit → s.threadAt.hasEntered = true))
  | .threadFunc | .loop _ => inferInstanceAs (Decidable True)

/-- A request that was stored is still there, until the loop is left. -/
def RequestKept (s : EventLoopThread F Tid) : Prop :=
  s.ownerAt.hasStored = true → s.threadAt = .inLoop ∧ s.loop.quit = true ∨ s.threadAt.hasLeft = true

namespace RequestKept

theorem owner (hs : RequestKept s) (hc : s.ownerAt = .storeQuit → s.threadAt.hasEntered = true)
    (h : s.owner = some t) : RequestKept t := by
  unfold EventLoopThread.owner at h
  intro hstored
  cases hat : s.ownerAt with
  | startLoop =>
    simp only [hat, Option.some.injEq] at h
    subst h
    cases hstored
  | wait =>
    simp only [hat] at h
    split at h
    · cases h
      cases hstored
    · cases h
  | readLoop =>
    simp only [hat, Option.some.injEq] at h
    subst h
    cases hpublished : s.published <;> simp [hpublished, OwnerAt.hasStored] at hstored
  | storeQuit =>
    simp only [hat, Option.some.injEq] at h
    subst h
    have hentered := hc hat
    cases hthread : s.threadAt with
    | inLoop => exact .inl ⟨rfl, rfl⟩
    | clear => exact .inr rfl
    | finished => exact .inr rfl
    | _ =>
      rw [hthread] at hentered
      cases hentered
  | wakeup =>
    simp only [hat, Option.some.injEq] at h
    subst h
    exact hs (by rw [hat]; rfl)
  | join =>
    simp only [hat] at h
    split at h
    · cases h
      cases hstored
    · cases h
  | destroyed =>
    simp only [hat] at h
    cases h

theorem threadFunc (hs : RequestKept s) (h : s.threadFunc = some t) : RequestKept t := by
  unfold EventLoopThread.threadFunc at h
  intro hstored
  cases hat : s.threadAt with
  | callback =>
    simp only [hat, Option.some.injEq] at h
    subst h
    have hkept := hs hstored
    simp [hat, ThreadAt.hasLeft] at hkept
  | publish =>
    simp only [hat, Option.some.injEq] at h
    subst h
    have hkept := hs hstored
    simp [hat, ThreadAt.hasLeft] at hkept
  | clear =>
    simp only [hat, Option.some.injEq] at h
    subst h
    exact .inr rfl
  | _ =>
    simp only [hat] at h
    cases h

theorem of_loop {loop : LoopThreads F Tid} (hs : RequestKept s) (hquit : s.loop.quit = true → loop.quit = true) :
    RequestKept { s with loop } := by
  intro hstored
  rcases hs hstored with ⟨hat, hrequest⟩ | hleft
  · exact .inl ⟨hat, hquit hrequest⟩
  · exact .inr hleft

theorem of_inLoop {loop : LoopThreads F Tid} (hs : RequestKept s) (hat : s.threadAt = .inLoop)
    (hquit : s.loop.quit = true → loop.quit = true) :
    RequestKept { s with loop, threadAt := if loop.phase = .outside then .clear else .inLoop } := by
  intro hstored
  rcases hs hstored with ⟨-, hrequest⟩ | hleft
  · dsimp only
    split
    · exact .inr rfl
    · exact .inl ⟨rfl, hquit hrequest⟩
  · rw [hat] at hleft
    cases hleft

variable [DecidableEq Tid] {loopThread : Tid}

theorem loopStep {e : LoopEvent F Tid} (hs : RequestKept s) (h : s.loopStep loopThread e = some t) : RequestKept t := by
  cases e with
  | pushBack thread _ | wakeupIfNeeded thread | quit thread =>
    simp only [EventLoopThread.loopStep] at h
    split at h
    · obtain ⟨loop, hloop, rfl⟩ := Option.map_eq_some_iff.mp h
      exact hs.of_loop (LoopThreads.quit_of_step rfl hloop)
    · cases h
  | enterLoop =>
    simp only [EventLoopThread.loopStep] at h
    split at h
    · rename_i hat
      obtain ⟨loop, hloop, rfl⟩ := Option.map_eq_some_iff.mp h
      -- The request would have come before `loop` was entered.
      intro hstored
      have hkept := hs hstored
      simp [hat, ThreadAt.hasLeft] at hkept
    · cases h
  | _ =>
    simp only [EventLoopThread.loopStep] at h
    split at h
    · rename_i hat
      obtain ⟨loop, hloop, rfl⟩ := Option.map_eq_some_iff.mp h
      exact hs.of_inLoop hat (LoopThreads.quit_of_step rfl hloop)
    · cases h

theorem step {e : Event F Tid} (hs : RequestKept s) (hc : QuitsEntered s e) (h : s.step loopThread e = some t) :
    RequestKept t := by
  cases e with
  | owner => exact hs.owner hc h
  | threadFunc =>
    simp only [EventLoopThread.step] at h
    split at h
    · cases h
    · exact hs.threadFunc h
  | loop e => exact hs.loopStep h

end RequestKept

variable [DecidableEq Tid] {loopThread : Tid}

/-- If the destructor stores `quit_` only after `loop` has cleared it, then while the owner waits in `join` the
thread is in the loop with the request before it, or has left the loop. -/
theorem quit_request_kept {es : List (Event F Tid)} (hrun : (system loopThread).Run QuitsEntered {} es s)
    (hjoin : s.ownerAt = .join) : s.threadAt = .inLoop ∧ s.loop.quit = true ∨ s.threadAt.hasLeft = true := by
  have hs : RequestKept s := by
    refine hrun.invariant (fun hs hc h => hs.step hc h) ?_
    intro hstored
    cases hstored
  exact hs (by rw [hjoin]; rfl)

/-- The thread publishes its loop and enters it, and then the owner asks it to quit. -/
def quitsInLoop : List (Event Unit Bool) :=
  [.owner, .threadFunc, .threadFunc, .owner, .loop .enterLoop, .loop .testQuit, .owner, .owner, .owner]

theorem quits_in_loop :
    ∃ s, (system false).Run QuitsEntered ({} : EventLoopThread Unit Bool) quitsInLoop s ∧ s.ownerAt = .join ∧
      s.loop.phase = .polling ∧ (s.threadAt = .inLoop ∧ s.loop.quit = true ∨ s.threadAt.hasLeft = true) := by
  refine Stepper.Run.replay rfl ?_
  intro hrun
  exact ⟨rfl, rfl, quit_request_kept hrun rfl⟩

/-- The owner asks before the loop is entered. The loop then clears the request, consumes its wakeup, and polls
again. -/
def quitsBeforeLoop : List (Event Unit Bool) :=
  [.owner, .threadFunc, .threadFunc, .owner, .owner, .owner, .owner, .loop .enterLoop, .loop .testQuit,
    .loop (.pollReturns true), .loop .handleRead, .loop .beginFunctors, .loop .swapFunctors, .loop .endFunctors,
    .loop .destroyFunctors, .loop .testQuit]

theorem quit_request_lost :
    ∃ s, (system false).Run (fun _ _ => True) ({} : EventLoopThread Unit Bool) quitsBeforeLoop s ∧ s.ownerAt = .join ∧
      s.threadAt = .inLoop ∧ s.loop.phase = .polling ∧ s.loop.queue.wakeupFd = 0 ∧ s.loop.quit = false := by
  refine Stepper.Run.replay rfl ?_
  intro _
  exact ⟨rfl, rfl, rfl, rfl, rfl⟩

end EventLoopThread
end Muduo
