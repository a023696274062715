import Muduo.EventLoop

/-! # The functor queue: order and wakeups

The functors that were run, then the rest of the batch that was swapped out, then the pending ones are
always the functors in the order of their `push_back`, and a functor is run in a later batch than any
batch that was swapped out before it was queued.

A functor is left behind in `poll` only when the loop thread itself queues it where neither the rest of
the iteration nor `callingPendingFunctors_` covers it: outside `loop`, or while the batch is destroyed. -/

namespace Muduo
open Lib

/-- Where a functor that the loop thread queues is picked up: by the batch of the same iteration, or
    after the wakeup that `callingPendingFunctors_` asks for. -/
def Phase.covered : Phase → Bool
  | .handling _ | .running => true
  | _ => false

namespace LoopThreads

/-! ## What a step does -/

section Loop
variable {F Tid : Type} {s t : LoopThreads F Tid} {e : LoopEvent F Tid}

theorem loopStep_cases (h : s.loopStep e = some t) :
    (s.phase = .outside ∧ t = { s with phase := .test, quit := false }) ∨
    (s.phase = .test ∧ t = { s with phase := if s.quit then .outside else .polling }) ∨
    (∃ active, s.phase = .polling ∧ t = { s with phase := .handling active }) ∨
    (s.phase = .handling true ∧ t = { s with queue := s.queue.handleRead, phase := .handling false }) ∨
    (s.phase = .handling false ∧
      t = { s with queue := { s.queue with callingPendingFunctors := true }, phase := .swapping }) ∨
    (s.phase = .swapping ∧
      t = { s with queue := s.queue.swapFunctors, phase := .running, batches := s.batches + 1 }) ∨
    (∃ f rest, s.phase = .running ∧ s.queue.functors = f :: rest ∧
      t = { s with
        queue := { s.queue with functors := rest }
        executed := s.executed ++ [(f, s.batches)] }) ∨
    (s.phase = .running ∧ s.queue.functors = [] ∧
      t = { s with queue := { s.queue with callingPendingFunctors := false }, phase := .destroying }) ∨
    (s.phase = .destroying ∧ t = { s with phase := .test }) := by
  cases e <;> simp only [loopStep] at h
  case pollReturns active =>
    split at h
    · rename_i hg
      exact Or.inr (Or.inr (Or.inl ⟨active, hg.1, (Option.some.inj h).symm⟩))
    · cases h
  case runFunctor =>
    split at h
    · rename_i f rest hp hf
      exact Or.inr (Or.inr (Or.inr (Or.inr (Or.inr (Or.inr
        (Or.inl ⟨f, rest, hp, hf, (Option.some.inj h).symm⟩))))))
    · cases h
  case pushBack | wakeupIfNeeded | quit => cases h
  all_goals
    split at h
    · simp_all
    · cases h

/-! ## Order -/

/-- The order of the queue, and in which batches the functors are run. -/
structure Fifo (s : LoopThreads F Tid) : Prop where
  order : s.executed.map (·.1) ++ s.queue.functors ++ s.queue.pendingFunctors = s.pushed
  outside : s.phase ≠ .running → s.queue.functors = []
  executed : ∀ x ∈ s.executed, x.1.queuedIn < x.2
  batch : ∀ f ∈ s.queue.functors, f.queuedIn < s.batches
  pending : ∀ f ∈ s.queue.pendingFunctors, f.queuedIn ≤ s.batches

theorem Fifo.init : Fifo ({} : LoopThreads F Tid) where
  order := rfl
  outside _ := rfl
  executed x hx := by cases hx
  batch f hf := by cases hf
  pending f hf := by cases hf

/-- A step that touches neither the functors nor what was pushed and run keeps the order. -/
theorem Fifo.of_eq (h : Fifo s) (hp : t.queue.pendingFunctors = s.queue.pendingFunctors)
    (hf : t.queue.functors = s.queue.functors) (hpu : t.pushed = s.pushed) (he : t.executed = s.executed)
    (hb : t.batches = s.batches) (hphase : t.phase ≠ .running → s.queue.functors = []) : Fifo t where
  order := by rw [he, hf, hp, hpu]; exact h.order
  outside hne := by rw [hf]; exact hphase hne
  executed := by rw [he]; exact h.executed
  batch := by rw [hf, hb]; exact h.batch
  pending := by rw [hp, hb]; exact h.pending

theorem Fifo.loopStep (h : Fifo s) (hs : s.loopStep e = some t) : Fifo t := by
  rcases loopStep_cases hs with ⟨hp, rfl⟩ | ⟨hp, rfl⟩ | ⟨active, hp, rfl⟩ | ⟨hp, rfl⟩ | ⟨hp, rfl⟩ |
    ⟨hp, rfl⟩ | ⟨f, rest, hp, hf, rfl⟩ | ⟨hp, hf, rfl⟩ | ⟨hp, rfl⟩
  case inr.inr.inr.inr.inr.inl =>
    -- The swap: the pending functors become the batch, and the batch before it was run to its end.
    have hnil : s.queue.functors = [] := h.outside (by simp [hp])
    have horder := h.order
    rw [hnil, List.append_nil] at horder
    refine ⟨by simpa [LoopQueue.swapFunctors] using horder, fun hne => absurd rfl hne, h.executed, ?_, ?_⟩
    · intro f hf
      exact Nat.lt_succ_of_le (h.pending f hf)
    · intro f hf
      cases hf
  case inr.inr.inr.inr.inr.inr.inl =>
    have horder := h.order
    rw [hf] at horder
    refine ⟨by simpa using horder, fun hne => absurd hp hne, ?_, ?_, h.pending⟩
    · intro x hx
      rcases List.mem_append.mp hx with hx | hx
      · exact h.executed x hx
      · obtain rfl := List.mem_singleton.mp hx
        exact h.batch f (by rw [hf]; exact List.mem_cons_self)
    · intro g hg
      exact h.batch g (by rw [hf]; exact List.mem_cons_of_mem f hg)
  case inr.inr.inr.inr.inr.inr.inr.inl => exact h.of_eq rfl rfl rfl rfl rfl fun _ => hf
  all_goals exact h.of_eq rfl rfl rfl rfl rfl fun _ => h.outside (by simp [hp])

end Loop

section Threads
variable {F Tid : Type} [DecidableEq Tid] {loopThread : Tid} {s t : LoopThreads F Tid} {e : LoopEvent F Tid}

/-- What a step does: a thread moves through `queueInLoop` or asks the loop to quit, or the loop thread
    goes on. -/
theorem step_cases (h : step loopThread s e = some t) :
    (∃ i f, e = .pushBack i f ∧
      t = { s with
        queue := s.queue.pushBack ⟨f, s.batches⟩
        pushed := s.pushed ++ [⟨f, s.batches⟩]
        queueing := i :: s.queueing }) ∨
    (∃ i, e = .wakeupIfNeeded i ∧
      t = { s with
        queue := s.queue.wakeupIfNeeded (i = loopThread)
        queueing := s.queueing.filter (· ≠ i) }) ∨
    (∃ i, e = .quit i ∧
      t = { s with quit := true, queue := if i = loopThread then s.queue else s.queue.wakeup }) ∨
    (loopThread ∉ s.queueing ∧ s.loopStep e = some t) := by
  cases e with
  | pushBack i f =>
    simp only [step, threadStep] at h
    split at h
    · exact Or.inl ⟨i, f, rfl, (Option.some.inj h).symm⟩
    · cases h
  | wakeupIfNeeded i =>
    simp only [step, threadStep] at h
    split at h
    · exact Or.inr (Or.inl ⟨i, rfl, (Option.some.inj h).symm⟩)
    · cases h
  | quit i => exact Or.inr (Or.inr (Or.inl ⟨i, rfl, (Option.some.inj h).symm⟩))
  | _ =>
    simp only [step] at h
    split at h
    · cases h
    · rename_i hq
      exact Or.inr (Or.inr (Or.inr ⟨hq, h⟩))

theorem Fifo.step (h : Fifo s) (hs : LoopThreads.step loopThread s e = some t) : Fifo t := by
  rcases step_cases hs with ⟨i, f, -, rfl⟩ | ⟨i, -, rfl⟩ | ⟨i, -, rfl⟩ | ⟨-, hs⟩
  · refine ⟨?_, h.outside, h.executed, h.batch, ?_⟩
    · simp only [LoopQueue.pushBack, ← List.append_assoc, h.order]
    · intro g hg
      rcases List.mem_append.mp hg with hg | hg
      · exact h.pending g hg
      · obtain rfl := List.mem_singleton.mp hg
        exact Nat.le_refl _
  · exact h.of_eq (by simp) (by simp) rfl rfl rfl h.outside
  · refine h.of_eq ?_ ?_ rfl rfl rfl h.outside
    · dsimp only; split <;> simp
    · dsimp only; split <;> simp
  · exact h.loopStep hs

/-- At every point of every run, whatever the threads queue and wherever the loop thread is: the
    functors that were run, then the rest of the batch, then the pending ones are the functors in the
    order of their `push_back`, and each was run in a later batch than those swapped out before it was
    queued; in particular one that is queued while a batch runs is run in a later batch. -/
theorem functors_fifo {es : List (LoopEvent F Tid)}
    (h : (stepper loopThread).Run (fun _ _ => True) ({} : LoopThreads F Tid) es s) :
    s.executed.map (·.1) ++ s.queue.functors ++ s.queue.pendingFunctors = s.pushed ∧
      (∀ x ∈ s.executed, x.1.queuedIn < x.2) ∧
      (∀ f ∈ s.queue.functors, f.queuedIn < s.batches) := by
  have hfifo : Fifo s := h.invariant (I := Fifo) (fun hi _ hstep => hi.step hstep) Fifo.init
  exact ⟨hfifo.order, hfifo.executed, hfifo.batch⟩

/-- A functor that queues another one: the second waits for the next batch. -/
theorem functors_fifo_requeue :
    ∃ s, (stepper 0).Run (fun _ _ => True) ({} : LoopThreads String Nat)
        [.pushBack 1 "a", .wakeupIfNeeded 1, .enterLoop, .testQuit, .pollReturns true, .handleRead,
          .beginFunctors, .swapFunctors, .runFunctor, .pushBack 0 "b", .pushBack 1 "c", .wakeupIfNeeded 0] s ∧
      s.executed = [(⟨"a", 0⟩, 1)] ∧ s.queue.pendingFunctors = [⟨"b", 1⟩, ⟨"c", 1⟩] ∧
      s.executed.map (·.1) ++ s.queue.functors ++ s.queue.pendingFunctors = s.pushed :=
  Stepper.Run.replay rfl fun run => ⟨rfl, rfl, (functors_fifo run).1⟩

end Threads

/-! ## Wakeups -/

section Loop
variable {F Tid : Type} {loopThread : Tid} {s t : LoopThreads F Tid} {e : LoopEvent F Tid}

/-- Nothing is left behind when the loop blocks: no functor is pending, or the eventfd is readable, or
    another thread has pushed its functor and will still write to the eventfd. -/
def NoMissedWakeup (loopThread : Tid) (s : LoopThreads F Tid) : Prop :=
  s.queue.pendingFunctors = [] ∨ s.queue.wakeupFd ≠ 0 ∨ ∃ i ∈ s.queueing, i ≠ loopThread

/-- The loop thread queues functors only from event handlers and from functors. -/
def QueuesCovered (loopThread : Tid) (s : LoopThreads F Tid) : LoopEvent F Tid → Prop
  | .pushBack i _ => i = loopThread → s.phase.covered = true
  | _ => True

instance [DecidableEq Tid] (s : LoopThreads F Tid) (e : LoopEvent F Tid) :
    Decidable (QueuesCovered loopThread s e) :=
  match e with
  | .pushBack i _ => inferInstanceAs (Decidable (i = loopThread → s.phase.covered = true))
  | .wakeupIfNeeded _ | .quit _ | .enterLoop | .testQuit | .pollReturns _ | .handleRead | .beginFunctors
  | .swapFunctors | .runFunctor | .endFunctors | .destroyFunctors => instDecidableTrue

/-- What holds of pending functors in each phase. Until the swap they wait for the batch of the same
    iteration, so only the phases after it matter; while a batch runs, the loop thread itself may be the
    one that still has to write to the eventfd. -/
structure Wakeups (loopThread : Tid) (s : LoopThreads F Tid) : Prop where
  calling : s.queue.callingPendingFunctors = true ↔ s.phase = .swapping ∨ s.phase = .running
  covered : loopThread ∈ s.queueing → s.phase.covered = true
  running : s.phase = .running → s.queue.pendingFunctors = [] ∨ s.queue.wakeupFd ≠ 0 ∨ s.queueing ≠ []
  blocked : s.phase = .outside ∨ s.phase = .test ∨ s.phase = .polling ∨ s.phase = .destroying →
    NoMissedWakeup loopThread s

theorem Wakeups.init : Wakeups loopThread ({} : LoopThreads F Tid) where
  calling := by simp
  covered h := by cases h
  running h := by cases h
  blocked _ := Or.inl rfl

theorem Wakeups.pushBack (h : Wakeups loopThread s) {i : Tid} {f : Queued F}
    (hc : i = loopThread → s.phase.covered = true) {pushed : List (Queued F)} :
    Wakeups loopThread { s with queue := s.queue.pushBack f, pushed := pushed, queueing := i :: s.queueing } where
  calling := h.calling
  covered hm := by
    rcases List.mem_cons.mp hm with hi | hm
    · exact hc hi.symm
    · exact h.covered hm
  running _ := Or.inr (Or.inr (List.cons_ne_nil _ _))
  blocked hp := by
    refine Or.inr (Or.inr ⟨i, List.mem_cons_self, fun hi => ?_⟩)
    have := hc hi
    rcases hp with hp | hp | hp | hp <;> dsimp only at hp <;> rw [hp] at this <;> cases this

theorem Wakeups.loopStep (h : Wakeups loopThread s) (hq : loopThread ∉ s.queueing) (hs : s.loopStep e = some t) :
    Wakeups loopThread t := by
  have hcalling := h.calling
  rcases loopStep_cases hs with ⟨hp, rfl⟩ | ⟨hp, rfl⟩ | ⟨active, hp, rfl⟩ | ⟨hp, rfl⟩ | ⟨hp, rfl⟩ |
    ⟨hp, rfl⟩ | ⟨f, rest, hp, hf, rfl⟩ | ⟨hp, hf, rfl⟩ | ⟨hp, rfl⟩ <;>
    rw [hp] at hcalling
  · exact ⟨by simpa using hcalling, fun hm => absurd hm hq, by simp, fun _ => h.blocked (by simp [hp])⟩
  · have hblocked : NoMissedWakeup loopThread s := h.blocked (by simp [hp])
    cases hquit : s.quit
    · exact ⟨by simpa using hcalling, fun hm => absurd hm hq, by simp, fun _ => hblocked⟩
    · exact ⟨by simpa using hcalling, fun hm => absurd hm hq, by simp, fun _ => hblocked⟩
  · exact ⟨by simpa using hcalling, fun hm => absurd hm hq, by simp, by simp⟩
  · exact ⟨by simpa [LoopQueue.handleRead] using hcalling, fun hm => absurd hm hq, by simp, by simp⟩
  · exact ⟨by simp, fun hm => absurd hm hq, by simp, by simp⟩
  · -- After the swap nothing is pending.
    exact ⟨by simpa [LoopQueue.swapFunctors] using hcalling, fun hm => absurd hm hq, fun _ => Or.inl rfl, by simp⟩
  · exact ⟨by simpa [hp] using hcalling, fun hm => absurd hm hq, fun _ => h.running hp, by simp [hp]⟩
  · refine ⟨by simp, fun hm => absurd hm hq, by simp, fun _ => ?_⟩
    rcases h.running hp with hn | hn | hn
    · exact Or.inl hn
    · exact Or.inr (Or.inl hn)
    · obtain ⟨i, hi⟩ := List.exists_mem_of_ne_nil _ hn
      exact Or.inr (Or.inr ⟨i, hi, fun heq => hq (heq ▸ hi)⟩)
  · exact ⟨by simpa using hcalling, fun hm => absurd hm hq, by simp, fun _ => h.blocked (by simp [hp])⟩

end Loop

section Threads
variable {F Tid : Type} [DecidableEq Tid] {loopThread : Tid} {s t : LoopThreads F Tid} {e : LoopEvent F Tid}

theorem Wakeups.wakeupIfNeeded (h : Wakeups loopThread s) (i : Tid) :
    Wakeups loopThread { s with
      queue := s.queue.wakeupIfNeeded (i = loopThread)
      queueing := s.queueing.filter (· ≠ i) } where
  calling := by simpa using h.calling
  covered hm := h.covered (List.mem_filter.mp hm).1
  running hp := by
    have hcalling : s.queue.callingPendingFunctors = true := h.calling.mpr (Or.inr hp)
    rcases LoopQueue.wakeupIfNeeded_cases (q := s.queue) (i = loopThread) with hw | ⟨-, hf, -⟩
    · exact Or.inr (Or.inl (by rw [hw]; exact LoopQueue.wakeup_ne_zero))
    · rw [hcalling] at hf; cases hf
  blocked hp := by
    rcases LoopQueue.wakeupIfNeeded_cases (q := s.queue) (i = loopThread) with hw | ⟨hi, -, hw⟩
    · exact Or.inr (Or.inl (by rw [hw]; exact LoopQueue.wakeup_ne_zero))
    · -- The loop thread leaves `queueInLoop` without a wakeup, and takes nobody else out of it.
      rcases h.blocked hp with hn | hn | ⟨j, hj, hne⟩
      · exact Or.inl (by simpa using hn)
      · exact Or.inr (Or.inl (by rw [hw]; exact hn))
      · refine Or.inr (Or.inr ⟨j, List.mem_filter.mpr ⟨hj, ?_⟩, hne⟩)
        simpa [of_decide_eq_true hi] using hne

theorem Wakeups.quit (h : Wakeups loopThread s) (i : Tid) :
    Wakeups loopThread { s with quit := true, queue := if i = loopThread then s.queue else s.queue.wakeup } := by
  by_cases hi : i = loopThread
  · simpa only [if_pos hi] using (⟨h.calling, h.covered, h.running, h.blocked⟩ :
      Wakeups loopThread { s with quit := true })
  · simp only [if_neg hi]
    exact ⟨by simpa using h.calling, h.covered, fun _ => Or.inr (Or.inl LoopQueue.wakeup_ne_zero),
      fun _ => Or.inr (Or.inl LoopQueue.wakeup_ne_zero)⟩

theorem Wakeups.step (h : Wakeups loopThread s) (hc : QueuesCovered loopThread s e)
    (hs : LoopThreads.step loopThread s e = some t) : Wakeups loopThread t := by
  rcases step_cases hs with ⟨i, f, rfl, rfl⟩ | ⟨i, -, rfl⟩ | ⟨i, -, rfl⟩ | ⟨hq, hs⟩
  · exact h.pushBack hc
  · exact h.wakeupIfNeeded i
  · exact h.quit i
  · exact h.loopStep hq hs

/-- In every run in which the loop thread queues functors only from event handlers and from functors,
    whatever the other threads queue and whenever: when the loop is about to block in `poll`, no functor
    is left behind. -/
theorem no_missed_wakeup {es : List (LoopEvent F Tid)}
    (h : (stepper loopThread).Run (QueuesCovered loopThread) ({} : LoopThreads F Tid) es s)
    (hpoll : s.phase = .polling) : NoMissedWakeup loopThread s := by
  have hw : Wakeups loopThread s :=
    h.invariant (I := Wakeups loopThread) (fun hi hc hstep => hi.step hc hstep) Wakeups.init
  exact hw.blocked (by simp [hpoll])

/-- A functor that runs another functor through `queueInLoop` is followed by a wakeup. -/
theorem no_missed_wakeup_requeue :
    ∃ s, (stepper 0).Run (QueuesCovered 0) ({} : LoopThreads String Nat)
        [.pushBack 1 "a", .wakeupIfNeeded 1, .enterLoop, .testQuit, .pollReturns true, .handleRead,
          .beginFunctors, .swapFunctors, .runFunctor, .pushBack 0 "b", .wakeupIfNeeded 0, .endFunctors,
          .destroyFunctors, .testQuit] s ∧
      s.phase = .polling ∧ s.queue.pendingFunctors = [⟨"b", 1⟩] ∧ NoMissedWakeup 0 s :=
  Stepper.Run.replay rfl fun run => ⟨rfl, rfl, no_missed_wakeup run rfl⟩

/-- The loop blocks with a functor pending and nothing to wake it: when the loop thread queues it before
    it enters `loop`, and when the destructor of what a functor captured queues it, after
    `callingPendingFunctors_` was lowered. -/
theorem missed_wakeup :
    (∃ s, (stepper 0).Run (fun _ _ => True) ({} : LoopThreads String Nat)
        [.pushBack 0 "a", .wakeupIfNeeded 0, .enterLoop, .testQuit] s ∧
      s.phase = .polling ∧ ¬NoMissedWakeup 0 s) ∧
    (∃ s, (stepper 0).Run (fun _ _ => True) ({} : LoopThreads String Nat)
        [.pushBack 1 "a", .wakeupIfNeeded 1, .enterLoop, .testQuit, .pollReturns true, .handleRead,
          .beginFunctors, .swapFunctors, .runFunctor, .endFunctors, .pushBack 0 "b", .wakeupIfNeeded 0,
          .destroyFunctors, .testQuit] s ∧
      s.phase = .polling ∧ ¬NoMissedWakeup 0 s) := by
  refine ⟨Stepper.Run.replay rfl fun _ => ⟨rfl, ?_⟩, Stepper.Run.replay rfl fun _ => ⟨rfl, ?_⟩⟩
  · rintro (h | h | ⟨i, hi, -⟩)
    · cases h
    · exact h rfl
    · cases hi
  · rintro (h | h | ⟨i, hi, -⟩)
    · cases h
    · exact h rfl
    · cases hi

end Threads
end LoopThreads
end Muduo
