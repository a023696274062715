import Muduo.Theorems.ThreadPoolTasks

/-! # The counter of queued tasks

A producer counts its task after it has left the mutex of the queue, a worker discounts the task it pops while it
holds the mutex. So the counter is behind the queues by the producers in between, and wraps below zero when a worker
is faster than they are. -/

namespace Muduo
open Lib

/-- The producer has pushed its task and has not counted it. -/
def ProducerAt.uncounted {n : Nat} {Task : Type} : ProducerAt n Task → Bool
  | .incrementQueued _ _ => true
  | _ => false

/-- The producer has come to the queue of its worker. -/
def ProducerAt.atQueue {n : Nat} {Task : Type} : ProducerAt n Task → Bool
  | .push _ _ | .incrementQueued _ _ | .releaseSignal _ => true
  | _ => false

namespace ThreadPool
variable {n : Nat} {Task : Type} {s t : ThreadPool n Task} {i : Fin n}

/-- The producers between the push and the increment of the counter. -/
def uncounted (s : ThreadPool n Task) : Nat := s.producers.countP ProducerAt.uncounted

/-! ## What a step does to the counter -/

inductive CounterMoves (s t : ThreadPool n Task) : Prop where
  | stays (hcounter : t.queuedTasks = s.queuedTasks) (huncounted : t.uncounted = s.uncounted)
      (hqueued : t.queued = s.queued) (hpushed : t.pushed = s.pushed) (hpopped : t.popped = s.popped)
  | pushes (task : Task) (hcounter : t.queuedTasks = s.queuedTasks) (huncounted : t.uncounted = s.uncounted + 1)
      (hqueued : t.queued = s.queued + {task}) (hpushed : t.pushed = task :: s.pushed) (hpopped : t.popped = s.popped)
  | counts (hcounter : t.queuedTasks = s.queuedTasks + 1) (huncounted : t.uncounted + 1 = s.uncounted)
      (hqueued : t.queued = s.queued) (hpushed : t.pushed = s.pushed) (hpopped : t.popped = s.popped)
  | takes (i : Fin n) (task : Task) (hcounter : t.queuedTasks = s.queuedTasks - 1) (huncounted : t.uncounted = s.uncounted)
      (hqueued : t.queued + {task} = s.queued) (hpushed : t.pushed = s.pushed) (hpopped : t.popped = (i, task) :: s.popped)
  | resets (hcounter : t.queuedTasks = 0) (huncounted : t.uncounted = s.uncounted) (hqueued : t.queued = 0)
      (hpushed : t.pushed = s.pushed) (hpopped : t.popped = s.popped)

theorem counterMoves_of_worker (h : WorkerMoves s i t) : CounterMoves s t := by
  cases h with
  | goes dest hown => exact .stays rfl rfl rfl rfl rfl
  | takes owner task rest hperm => exact .takes i task rfl rfl (queued_take hperm) rfl rfl
  | wakes signal hsignal => exact .stays rfl rfl queued_setSignal rfl rfl

/-- The producer that moves is counted before and after; the others stay where they are. -/
theorem uncounted_of_replaces {p p' : ProducerAt n Task} {producers : List (ProducerAt n Task)}
    (hreplaces : Replaces s.producers producers p p') :
    ({ t with producers := producers } : ThreadPool n Task).uncounted + (if p.uncounted then 1 else 0) =
      s.uncounted + (if p'.uncounted then 1 else 0) :=
  hreplaces.countP ProducerAt.uncounted

/-- Up to the push a producer touches neither the queues nor the counter. -/
theorem same_of_producer {p p' : ProducerAt n Task} (hpushed : p.atQueue = false) (h : s.producer p = some (p', t)) :
    t.queuedTasks = s.queuedTasks ∧ t.workers = s.workers ∧ t.pushed = s.pushed ∧ t.popped = s.popped ∧
      p.uncounted = false ∧ p'.uncounted = false := by
  cases p <;> grind [producer, ProducerAt.atQueue, ProducerAt.uncounted]

theorem counterMoves_of_producer {p p' : ProducerAt n Task} {producers : List (ProducerAt n Task)}
    (hreplaces : Replaces s.producers producers p p') (h : s.producer p = some (p', t)) :
    CounterMoves s { t with producers := producers } := by
  have hcount := uncounted_of_replaces (t := t) hreplaces
  cases hat : p.atQueue with
  | false =>
    obtain ⟨hcounter, hworkers, hpushed, hpopped, hp, hp'⟩ := same_of_producer hat h
    rw [hp, hp'] at hcount
    refine .stays hcounter hcount ?_ hpushed hpopped
    simp only [queued, hworkers]
  | true =>
    cases p with
    | push task i =>
      cases h
      exact .pushes task rfl hcount queued_pushTask rfl rfl
    | incrementQueued i needsWake =>
      simp only [producer, Option.some.injEq, Prod.mk.injEq] at h
      obtain ⟨rfl, rfl⟩ := h
      refine .counts rfl ?_ rfl rfl rfl
      cases needsWake <;> exact hcount
    | releaseSignal i =>
      cases h
      exact .stays rfl hcount queued_setSignal rfl rfl
    | _ => cases hat

theorem counterMoves_of_stop (h : StopMoves s t) : CounterMoves s t := by
  cases h with
  | signals i hi hat => exact .stays rfl rfl queued_setSignal rfl rfl
  | resets =>
    refine .resets rfl rfl ?_ rfl rfl
    simp [queued]
  | _ => exact .stays rfl rfl rfl rfl rfl

theorem counterMoves_of_step {e : Event n Task} (h : s.step e = some t) : CounterMoves s t := by
  cases e with
  | run task =>
    cases h
    refine .stays rfl ?_ rfl rfl rfl
    rw [uncounted, List.countP_append]
    rfl
  | producer k =>
    obtain ⟨p, p', u, hp, hproducer, rfl⟩ := producer_of_step h
    exact counterMoves_of_producer (replaces_set hp p') hproducer
  | worker i locked => exact counterMoves_of_worker (workerMoves_of_worker h)
  | stop => exact counterMoves_of_stop (stopMoves_of_stop h)

/-! ## Runs -/

/-- A worker pops only while the tasks in the queues outnumber the producers that have not counted theirs. -/
def CountedFirst (s : ThreadPool n Task) (e : Event n Task) : Prop :=
  ∀ t ∈ s.step e, t.popped.length = s.popped.length ∨ s.uncounted < ∑ i, (s.workers i).queue.length

instance (s : ThreadPool n Task) (e : Event n Task) : Decidable (CountedFirst s e) :=
  inferInstanceAs (Decidable (∀ t ∈ s.step e, _))

/-- The counter is behind the queues by at most the producers between, and ahead of nothing that was not pushed. -/
structure Tallied (s : ThreadPool n Task) : Prop where
  queued : s.queued.card ≤ s.queuedTasks.toNat + s.uncounted
  pushed : s.queuedTasks.toNat + s.uncounted ≤ s.pushed.length

namespace Tallied

theorem discounts (hs : Tallied s) (hfirst : s.uncounted < s.queued.card) :
    (s.queuedTasks - 1).toNat + 1 = s.queuedTasks.toNat := by
  have hqueued := hs.queued
  have hpos : (1 : UInt64) ≤ s.queuedTasks := by
    rw [UInt64.le_iff_toNat_le]
    change 1 ≤ _
    omega
  rw [UInt64.toNat_sub_of_le _ _ hpos]
  change s.queuedTasks.toNat - 1 + 1 = _
  omega

theorem moves (hs : Tallied s) (h : CounterMoves s t) (hbound : t.pushed.length < 2 ^ 64)
    (hfirst : t.popped.length = s.popped.length ∨ s.uncounted < s.queued.card) : Tallied t := by
  obtain ⟨hqueued, hpushed⟩ := hs
  cases h with
  | stays hcounter huncounted hqueued' hpushed' hpopped =>
    exact ⟨by rw [hcounter, huncounted, hqueued']; exact hqueued, by rw [hcounter, huncounted, hpushed']; exact hpushed⟩
  | pushes task hcounter huncounted hqueued' hpushed' hpopped =>
    refine ⟨?_, ?_⟩
    · rw [hcounter, huncounted, hqueued', Multiset.card_add, Multiset.card_singleton]
      omega
    · rw [hcounter, huncounted, hpushed', List.length_cons]
      omega
  | counts hcounter huncounted hqueued' hpushed' hpopped =>
    rw [hpushed'] at hbound
    have hsucc : (s.queuedTasks + 1).toNat = s.queuedTasks.toNat + 1 := by
      rw [UInt64.toNat_add]
      change (s.queuedTasks.toNat + 1) % 2 ^ 64 = _
      omega
    refine ⟨?_, ?_⟩
    · rw [hcounter, hsucc, hqueued']
      omega
    · rw [hcounter, hsucc, hpushed']
      omega
  | takes i task hcounter huncounted hqueued' hpushed' hpopped =>
    rcases hfirst with hsame | hfirst
    · rw [hpopped, List.length_cons] at hsame
      omega
    · have hprev := Tallied.discounts ⟨hqueued, hpushed⟩ hfirst
      have hcard := congrArg Multiset.card hqueued'
      rw [Multiset.card_add, Multiset.card_singleton] at hcard
      refine ⟨?_, ?_⟩
      · rw [hcounter, huncounted]
        omega
      · rw [hcounter, huncounted, hpushed']
        omega
  | resets hcounter huncounted hqueued' hpushed' hpopped =>
    refine ⟨?_, ?_⟩
    · rw [hqueued']
      exact Nat.zero_le _
    · rw [hcounter, huncounted, hpushed']
      change 0 + _ ≤ _
      omega

end Tallied

theorem length_pushed_of_moves (h : CounterMoves s t) : s.pushed.length ≤ t.pushed.length := by
  cases h with
  | pushes task hcounter huncounted hqueued hpushed hpopped =>
    rw [hpushed]
    exact Nat.le_succ _
  | stays _ _ _ hpushed _ | counts _ _ _ hpushed _ | takes _ _ _ _ _ hpushed _ | resets _ _ _ hpushed _ => rw [hpushed]

/-- If every pop is of tasks whose producers have counted them first, the counter does not wrap below zero, and
never exceeds the number of tasks that were pushed. -/
theorem queueSize_never_wraps {maxQueueSize : Nat} {es : List (Event n Task)}
    (hrun : (system n Task).Run CountedFirst (started n Task maxQueueSize) es s) (hbound : s.pushed.length < 2 ^ 64) :
    s.queuedTasks.toNat ≤ s.pushed.length ∧
      ∀ (e : Event n Task) (t : ThreadPool n Task), CountedFirst s e → s.step e = some t →
        t.popped.length ≠ s.popped.length → t.queuedTasks.toNat + 1 = s.queuedTasks.toNat := by
  have hs : Tallied s := by
    refine hrun.invariant (I := fun s => s.pushed.length < 2 ^ 64 → Tallied s) ?_ ?_ hbound
    · intro s t e hs hfirst hstep hbound
      have hmoves := counterMoves_of_step hstep
      have hbefore := Nat.lt_of_le_of_lt (length_pushed_of_moves hmoves) hbound
      exact (hs hbefore).moves hmoves hbound (card_queued (s := s) ▸ hfirst t hstep)
    · intro _
      exact ⟨by simp [queued, started, uncounted], by simp [started, uncounted]⟩
  refine ⟨Nat.le_trans (Nat.le_add_right _ _) hs.pushed, ?_⟩
  intro e t hfirst hstep hpopped
  rcases hfirst t hstep with hsame | hfirst
  · exact absurd hsame hpopped
  · cases counterMoves_of_step hstep with
    | takes i task hcounter huncounted hqueued hpushed hpopped' =>
      rw [hcounter]
      exact hs.discounts (card_queued (s := s) ▸ hfirst)
    | stays _ _ _ _ hsame | pushes _ _ _ _ _ hsame | counts _ _ _ _ hsame | resets _ _ _ _ hsame =>
      exact absurd (congrArg List.length hsame) hpopped

/-- A task is pushed and counted, and the worker comes to its queue. -/
def counted {n : Nat} (i : Fin n) : List (Event n Nat) := .run 7 :: List.replicate 5 (.producer 0) ++ [.worker i true]

theorem counted_discounts :
    ∃ s, (system 1 Nat).Run CountedFirst (started 1 Nat 0) (counted 0) s ∧ s.pushed.length < 2 ^ 64 ∧
      CountedFirst s (.worker 0 true) ∧ s.queuedTasks.toNat ≤ s.pushed.length ∧
      ∃ t, s.step (.worker 0 true) = some t ∧ t.popped = [(0, 7)] ∧
        t.queuedTasks.toNat + 1 = s.queuedTasks.toNat := by
  refine Stepper.Run.replay rfl ?_
  intro hrun
  have hcounter := queueSize_never_wraps hrun (by decide)
  exact ⟨by decide, by decide, hcounter.1, _, rfl, rfl, hcounter.2 (.worker 0 true) _ (by decide) rfl (by decide)⟩

/-- The worker pops the task before its producer has counted it. -/
def uncountedPop {n : Nat} (i : Fin n) : List (Event n Nat) :=
  .run 7 :: List.replicate 4 (.producer 0) ++ List.replicate 2 (.worker i true)

theorem queueSize_wraps :
    ∃ s, (system 1 Nat).Run (fun _ _ => True) (started 1 Nat 0) (uncountedPop 0) s ∧
      s.popped = [(0, 7)] ∧ s.pushed.length = 1 ∧ s.queuedTasks.toNat = 2 ^ 64 - 1 := by
  refine Stepper.Run.replay rfl ?_
  intro _
  exact ⟨rfl, rfl, rfl⟩

end ThreadPool
end Muduo
