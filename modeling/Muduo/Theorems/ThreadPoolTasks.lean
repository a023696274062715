import Muduo.Lib.Threads
import Muduo.ThreadPool

/-! # Tasks and slots of the thread pool

A task is pushed once and popped once, and a slot is free, with a producer, or with a task in a queue. -/

namespace Muduo
open Lib

/-- The worker looks into its own queue before it may block. -/
def WorkerAt.looksAtOwn {Task : Type} : WorkerAt Task → Bool
  | .testRunning | .popOwn | .running _ => true
  | .testQueued | .steal _ | .acquire | .finished => false

namespace ProducerAt
variable {n : Nat} {Task : Type}

def inEnqueueTask : ProducerAt n Task → Bool
  | .run _ | .returned => false
  | _ => true

/-- The producer has acquired a slot and has neither pushed its task nor released the slot. -/
def holdsSlot : ProducerAt n Task → Bool
  | .decrementWaiting _ | .retestRunning _ | .releaseSlot | .nextWorker _ | .push _ _ => true
  | _ => false

/-- The producer has still to acquire a slot, or may have to release it. -/
def usesSlots : ProducerAt n Task → Bool
  | .incrementWaiting _ | .acquireSlot _ | .decrementWaiting _ | .retestRunning _ | .releaseSlot => true
  | _ => false

/-- The producer has pushed onto the queue and has still to release the signal of the worker. -/
def owesSignal (i : Fin n) : ProducerAt n Task → Bool
  | .incrementQueued j needsWake => j = i && needsWake
  | .releaseSignal j => j = i
  | _ => false

end ProducerAt

/-- `stop` has stored `running_`. -/
def StopAt.cleared : StopAt → Bool
  | .notCalled | .clearRunning => false
  | _ => true

namespace ThreadPool
variable {n : Nat} {Task : Type} {s t : ThreadPool n Task} {i : Fin n}

/-! ## What a step does -/

inductive WorkerMoves (s : ThreadPool n Task) (i : Fin n) : ThreadPool n Task → Prop where
  /-- A worker gives its own queue up only when it is empty, or when the pool is stopped. -/
  | goes (dest : WorkerAt Task)
      (hown : s.isRunning = true → (s.workerAt i).looksAtOwn = true → dest.looksAtOwn = true ∨ (s.workers i).queue = [])
      (hidle : ∀ task, dest ≠ .running task) : WorkerMoves s i (s.goTo i dest)
  | takes (owner : Fin n) (task : Task) (rest : List Task) (hperm : (s.workers owner).queue.Perm (task :: rest))
      (hidle : ∀ task, s.workerAt i ≠ .running task) : WorkerMoves s i (s.take i owner task rest)
  | wakes (signal : Nat) (hsignal : (s.workers i).signal = signal + 1) (hat : s.workerAt i = .acquire) :
      WorkerMoves s i ((s.setSignal i signal).goTo i .testRunning)

theorem workerMoves_popOwn (hat : s.workerAt i = .popOwn) : WorkerMoves s i (s.popOwn i) := by
  unfold popOwn
  split
  · rename_i hempty
    exact .goes _ (fun _ _ => .inr hempty) (by simp)
  · rename_i task rest hqueue
    exact .takes i task rest (by rw [hqueue]) (by simp [hat])

theorem workerMoves_steal {k : Nat} {locked : Bool} (hat : s.workerAt i = .steal k) :
    WorkerMoves s i (s.steal i k locked) := by
  have hgoes : ∀ dest, (∀ task, dest ≠ .running task) → WorkerMoves s i (s.goTo i dest) := by
    intro dest hidle
    refine .goes dest ?_ hidle
    intro _ hown
    rw [hat] at hown
    cases hown
  unfold steal
  split
  · split
    · rename_i task hlast
      have hqueue := List.dropLast_append_getLast? task hlast
      refine .takes _ task _ ?_ (by simp [hat])
      nth_rewrite 1 [← hqueue]
      exact List.perm_append_singleton _ _
    · exact hgoes _ (by simp)
  · exact hgoes _ (by simp)

theorem workerMoves_of_worker {locked : Bool} (h : s.worker i locked = some t) : WorkerMoves s i t := by
  unfold worker at h
  cases hat : s.workerAt i with
  | testRunning =>
    simp only [hat, Option.some.injEq] at h
    subst h
    refine .goes _ ?_ fun _ => by split <;> simp
    intro hrunning _
    rw [hrunning]
    exact .inl rfl
  | popOwn =>
    simp only [hat, Option.some.injEq] at h
    subst h
    exact workerMoves_popOwn hat
  | testQueued =>
    simp only [hat, Option.some.injEq] at h
    subst h
    refine .goes _ ?_ fun _ => by split <;> simp
    intro _ hown
    rw [hat] at hown
    cases hown
  | steal k =>
    simp only [hat, Option.some.injEq] at h
    subst h
    exact workerMoves_steal hat
  | running task =>
    simp only [hat, Option.some.injEq] at h
    subst h
    exact .goes _ (fun _ _ => .inl rfl) (by simp)
  | acquire =>
    simp only [hat] at h
    split at h
    · cases h
    · rename_i signal hsignal
      cases h
      exact .wakes signal hsignal hat
  | finished =>
    simp only [hat] at h
    cases h

inductive ProducerMoves (s : ThreadPool n Task) (p : ProducerAt n Task) : ProducerAt n Task → ThreadPool n Task → Prop where
  | goes (p' : ProducerAt n Task) (waiting : Int) (next queued : UInt64)
      (hslot : s.queueSlots.isSome = true → p'.holdsSlot = p.holdsSlot) (howes : ∀ i, p'.owesSignal i = p.owesSignal i)
      (huses : p'.usesSlots = true → p.usesSlots = true ∨ s.isRunning = true) :
      ProducerMoves s p p' { s with waitingProducers := waiting, nextWorker := next, queuedTasks := queued }
  | acquires (task : Task) (free : Nat) (hp : p = .acquireSlot task) (hfree : s.queueSlots = some (free + 1)) :
      ProducerMoves s p (.decrementWaiting task) { s with queueSlots := some free }
  | releases (hp : p = .releaseSlot) : ProducerMoves s p .returned { s with queueSlots := s.queueSlots.map (· + 1) }
  | pushes (task : Task) (i : Fin n) (hp : p = .push task i) :
      ProducerMoves s p (.incrementQueued i (s.workers i).queue.isEmpty) (s.pushTask task i)
  | signals (i : Fin n) (hp : p = .releaseSignal i) :
      ProducerMoves s p .returned (s.setSignal i ((s.workers i).signal + 1))

/-- A step that neither takes nor gives back a slot, to where the slots are not used. -/
theorem ProducerMoves.of_unused {p p' : ProducerAt n Task} {waiting : Int} {next queued : UInt64}
    (hslot : p'.holdsSlot = p.holdsSlot) (howes : ∀ i, p'.owesSignal i = p.owesSignal i) (hunused : p'.usesSlots = false) :
    ProducerMoves s p p' { s with waitingProducers := waiting, nextWorker := next, queuedTasks := queued } := by
  refine .goes _ _ _ _ (fun _ => hslot) howes fun huses => ?_
  rw [hunused] at huses
  cases huses

theorem producerMoves_of_producer {p p' : ProducerAt n Task} (hn : p.inEnqueueTask = true → 0 < n)
    (h : s.producer p = some (p', t)) : ProducerMoves s p p' t := by
  cases p with
  | run task =>
    simp only [producer] at h
    split at h
    · cases h
      exact .of_unused rfl (fun _ => rfl) rfl
    · split at h
      · cases h
        exact .of_unused rfl (fun _ => rfl) rfl
      · cases h
        exact .of_unused rfl (fun _ => rfl) rfl
  | testRunning task =>
    simp only [producer] at h
    split at h
    · cases h
      exact .of_unused rfl (fun _ => rfl) rfl
    · rename_i hrunning
      split at h
      · cases h
        exact .goes _ _ _ _ (fun _ => rfl) (fun _ => rfl) fun _ => .inr (by simpa using hrunning)
      · rename_i hslots
        cases h
        exact .goes _ _ _ _ (fun hsome => absurd hsome hslots) (fun _ => rfl) (fun huses => absurd huses Bool.false_ne_true)
  | incrementWaiting task =>
    cases h
    exact .goes _ _ _ _ (fun _ => rfl) (fun _ => rfl) fun _ => .inl rfl
  | acquireSlot task =>
    simp only [producer] at h
    split at h
    · rename_i free hfree
      cases h
      exact .acquires task free rfl hfree
    · cases h
  | decrementWaiting task =>
    cases h
    exact .goes _ _ _ _ (fun _ => rfl) (fun _ => rfl) fun _ => .inl rfl
  | retestRunning task =>
    simp only [producer, Option.some.injEq, Prod.mk.injEq] at h
    obtain ⟨rfl, rfl⟩ := h
    refine .goes _ _ _ _ ?_ ?_ fun _ => .inl rfl
    · intro _
      split <;> rfl
    · intro j
      split <;> rfl
  | releaseSlot =>
    cases h
    exact .releases rfl
  | nextWorker task =>
    simp only [producer, dif_pos (hn rfl)] at h
    cases h
    exact .of_unused rfl (fun _ => rfl) rfl
  | push task i =>
    cases h
    exact .pushes task i rfl
  | incrementQueued i needsWake =>
    simp only [producer, Option.some.injEq, Prod.mk.injEq] at h
    obtain ⟨rfl, rfl⟩ := h
    refine .goes _ _ _ _ ?_ ?_ ?_
    · intro _
      cases needsWake <;> rfl
    · intro j
      cases needsWake <;> simp [ProducerAt.owesSignal]
    · cases needsWake <;> simp [ProducerAt.usesSlots]
  | releaseSignal i =>
    cases h
    exact .signals i rfl
  | returned => cases h

/-- A step of a producer keeps that there are workers for it. -/
theorem inEnqueueTask_of_producer {p p' : ProducerAt n Task} (hn : p.inEnqueueTask = true → 0 < n)
    (h : s.producer p = some (p', t)) (hp' : p'.inEnqueueTask = true) : 0 < n := by
  cases p with
  | run task =>
    simp only [producer] at h
    split at h
    · cases h
      cases hp'
    · split at h
      · cases h
        cases hp'
      · exact Nat.pos_of_ne_zero ‹_›
  | returned => cases h
  | _ => exact hn rfl

/-- The steps of the producers and the workers, with what each does to where the threads are. -/
inductive Moves (s : ThreadPool n Task) : ThreadPool n Task → Prop where
  | run (task : Task) : Moves s { s with producers := s.producers ++ [.run task] }
  | producer (p p' : ProducerAt n Task) (t : ThreadPool n Task) (producers : List (ProducerAt n Task))
      (hreplaces : Replaces s.producers producers p p') (hmoves : ProducerMoves s p p' t) :
      Moves s { t with producers := producers }
  | worker (i : Fin n) (t : ThreadPool n Task) (hmoves : WorkerMoves s i t) : Moves s t

/-- A producer past the first test of `run` has a worker to push to. -/
def HasWorkers (s : ThreadPool n Task) : Prop := ∀ p ∈ s.producers, p.inEnqueueTask = true → 0 < n

theorem producer_of_step {k : Nat} (h : s.step (.producer k) = some t) :
    ∃ p p' u, s.producers[k]? = some p ∧ s.producer p = some (p', u) ∧
      t = { u with producers := s.producers.set k p' } := by
  simp only [step] at h
  split at h
  · cases h
  · rename_i p hp
    obtain ⟨⟨p', u⟩, hproducer, rfl⟩ := Option.map_eq_some_iff.mp h
    exact ⟨p, p', u, hp, hproducer, rfl⟩

theorem moves_of_step {e : Event n Task} (hn : HasWorkers s) (h : s.step e = some t) :
    Moves s t ∨ e = .stop ∧ s.stop = some t := by
  cases e with
  | run task =>
    cases h
    exact .inl (.run task)
  | producer k =>
    obtain ⟨p, p', u, hp, hproducer, rfl⟩ := producer_of_step h
    exact .inl (.producer p p' u _ (replaces_set hp p')
      (producerMoves_of_producer (hn p (List.mem_of_getElem? hp)) hproducer))
  | worker i locked => exact .inl (.worker i t (workerMoves_of_worker h))
  | stop => exact .inr ⟨rfl, h⟩

theorem producers_of_worker (h : WorkerMoves s i t) : t.producers = s.producers := by
  cases h <;> rfl

inductive StopMoves (s : ThreadPool n Task) : ThreadPool n Task → Prop where
  | tests (hat : s.stopAt = .notCalled) :
      StopMoves s { s with stopAt := if s.isRunning then .clearRunning else .returned }
  | clears (hat : s.stopAt = .clearRunning) :
      StopMoves s
        { s with isRunning := false, stopAt := if s.queueSlots.isSome then .exchangeWaiting else .releaseSignal 0 }
  | exchanges (hat : s.stopAt = .exchangeWaiting) :
      StopMoves s { s with stopAt := .releaseSlots s.waitingProducers, waitingProducers := 0 }
  | frees (waiting : Int) (hat : s.stopAt = .releaseSlots waiting) :
      StopMoves s { s with stopAt := .releaseSignal 0, queueSlots := s.queueSlots.map (· + waiting.toNat) }
  | signals (i : Nat) (h : i < n) (hat : s.stopAt = .releaseSignal i) :
      StopMoves s { s.setSignal ⟨i, h⟩ ((s.workers ⟨i, h⟩).signal + 1) with stopAt := .releaseSignal (i + 1) }
  | signalled (i : Nat) (hat : s.stopAt = .releaseSignal i) : StopMoves s { s with stopAt := .join 0 }
  | joins (i : Nat) (h : i < n) (hat : s.stopAt = .join i) (hfinished : s.workerAt ⟨i, h⟩ = .finished) :
      StopMoves s { s with stopAt := .join (i + 1) }
  | joined (i : Nat) (hall : n ≤ i) (hat : s.stopAt = .join i) : StopMoves s { s with stopAt := .reset }
  | resets (hat : s.stopAt = .reset) :
      StopMoves s { s with stopAt := .returned, workers := fun _ => {}, queueSlots := none, queuedTasks := 0 }

theorem stopMoves_of_stop (h : s.stop = some t) : StopMoves s t := by
  unfold ThreadPool.stop at h
  split at h
  · cases h
    exact .tests ‹_›
  · cases h
    exact .clears ‹_›
  · cases h
    exact .exchanges ‹_›
  · cases h
    exact .frees _ ‹_›
  · split at h
    · cases h
      exact .signals _ _ ‹_›
    · cases h
      exact .signalled _ ‹_›
  · split at h
    · split at h
      · cases h
        exact .joins _ _ ‹_› ‹_›
      · cases h
    · rename_i hall
      cases h
      exact .joined _ (Nat.le_of_not_lt hall) ‹_›
  · cases h
    exact .resets ‹_›
  · cases h

namespace StopMoves

theorem producers (h : StopMoves s t) : t.producers = s.producers := by
  cases h <;> rfl

theorem called (h : StopMoves s t) : t.stopAt ≠ .notCalled := by
  cases h with
  | tests | clears =>
    dsimp only
    split <;> exact StopAt.noConfusion
  | _ => exact StopAt.noConfusion

theorem isRunning (h : StopMoves s t) : t.isRunning = s.isRunning ∨ s.stopAt = .clearRunning ∧ t.isRunning = false := by
  cases h with
  | clears hat => exact .inr ⟨hat, rfl⟩
  | _ => exact .inl rfl

/-- After `running_` is cleared, `stop` does not write it again. -/
theorem cleared (h : StopMoves s t) (ht : t.stopAt.cleared = true) :
    t.isRunning = false ∨ s.stopAt.cleared = true ∧ t.isRunning = s.isRunning := by
  cases h with
  | tests =>
    refine .inl (Bool.eq_false_iff.mpr fun hrunning => ?_)
    have hat : (if s.isRunning then StopAt.clearRunning else .returned) = .clearRunning := if_pos hrunning
    simp only [hat] at ht
    cases ht
  | clears => exact .inl rfl
  | exchanges hat | frees _ hat | signals _ _ hat | signalled _ hat | joins _ _ hat | joined _ _ hat | resets hat =>
    exact .inr ⟨by rw [hat]; rfl, rfl⟩

end StopMoves

theorem HasWorkers.step {e : Event n Task} (hn : HasWorkers s) (h : s.step e = some t) : HasWorkers t := by
  cases e with
  | run task =>
    cases h
    refine List.forall_mem_append.mpr ⟨hn, List.forall_mem_singleton.mpr ?_⟩
    intro hp
    cases hp
  | producer k =>
    obtain ⟨p, p', u, hp, hproducer, rfl⟩ := producer_of_step h
    exact (replaces_set hp p').forall_mem hn
      (inEnqueueTask_of_producer (hn p (List.mem_of_getElem? hp)) hproducer)
  | worker i locked =>
    rw [HasWorkers, producers_of_worker (workerMoves_of_worker h)]
    exact hn
  | stop =>
    rw [HasWorkers, (stopMoves_of_stop h).producers]
    exact hn

theorem isRunning_of_moves (h : Moves s t) : t.isRunning = s.isRunning ∧ t.stopAt = s.stopAt := by
  cases h with
  | run task => exact ⟨rfl, rfl⟩
  | producer p p' t producers hreplaces hmoves => cases hmoves <;> exact ⟨rfl, rfl⟩
  | worker i t hmoves => cases hmoves <;> exact ⟨rfl, rfl⟩

/-- What the producers and workers keep while the pool runs holds until `stop` is called. -/
theorem before_stop {I : ThreadPool n Task → Prop} {maxQueueSize : Nat} {es : List (Event n Task)}
    (hstarted : I (started n Task maxQueueSize))
    (keep : ∀ {s t : ThreadPool n Task}, I s → s.isRunning = true → Moves s t → I t)
    (hrun : (system n Task).Run (fun _ _ => True) (started n Task maxQueueSize) es s) (hstop : s.stopAt = .notCalled) :
    I s := by
  have hinv : HasWorkers s ∧ (s.stopAt = .notCalled → s.isRunning = true ∧ I s) := by
    refine hrun.invariant (I := fun s => HasWorkers s ∧ (s.stopAt = .notCalled → s.isRunning = true ∧ I s)) ?_ ?_
    · intro s t e hs _ hstep
      obtain ⟨hn, hs⟩ := hs
      refine ⟨hn.step hstep, ?_⟩
      intro hcalled
      rcases moves_of_step hn hstep with hmoves | ⟨-, hstop⟩
      · obtain ⟨hrunning, hat⟩ := isRunning_of_moves hmoves
        obtain ⟨hs, hI⟩ := hs (hat ▸ hcalled)
        exact ⟨hrunning.trans hs, keep hI hs hmoves⟩
      · exact absurd hcalled (stopMoves_of_stop hstop).called
    · refine ⟨?_, fun _ => ⟨rfl, hstarted⟩⟩
      intro p hp
      cases hp
  exact (hinv.2 hstop).2

/-! ## Conservation -/

/-- A sum over the queues changes by what the queue that is set changes. -/
theorem sum_setQueue {A : Type} [AddCommMonoid A] (g : List Task → A) (queue : List Task) :
    ∑ j, g ((s.setQueue i queue).workers j).queue + g (s.workers i).queue = ∑ j, g (s.workers j).queue + g queue := by
  have hupdate : (fun j => g ((s.setQueue i queue).workers j).queue) =
      Function.update (fun j => g (s.workers j).queue) i (g queue) := by
    funext j
    exact Function.apply_update (fun _ w => g w.queue) s.workers i { s.workers i with queue } j
  rw [hupdate]
  exact sum_update _ i (g queue)

theorem queue_setSignal {signal : Nat} (j : Fin n) : ((s.setSignal i signal).workers j).queue = (s.workers j).queue := by
  by_cases hij : j = i
  · subst hij
    simp [setSignal]
  · simp [setSignal, hij]

/-- The tasks in the queues of all workers. -/
def queued (s : ThreadPool n Task) : Multiset Task := ∑ i, ((s.workers i).queue : Multiset Task)

/-- The tasks that were pushed were popped or are in a queue. -/
def TasksConserved (s : ThreadPool n Task) : Prop := (s.pushed : Multiset Task) = (s.popped.map Prod.snd : Multiset Task) + s.queued

/-- The slots are free, with a task in a queue, or with a producer. -/
def SlotsConserved (maxQueueSize : Nat) (s : ThreadPool n Task) : Prop :=
  ∃ free, s.queueSlots = some free ∧
    free + ∑ i, (s.workers i).queue.length + s.producers.countP ProducerAt.holdsSlot = maxQueueSize

theorem card_queued : s.queued.card = ∑ i, (s.workers i).queue.length := by
  rw [queued, Multiset.card_sum]
  simp only [Multiset.coe_card]

theorem queued_setSignal {signal : Nat} : (s.setSignal i signal).queued = s.queued := by
  simp only [queued, queue_setSignal]

theorem queued_take {owner : Fin n} {task : Task} {rest : List Task}
    (hperm : (s.workers owner).queue.Perm (task :: rest)) : (s.take i owner task rest).queued + {task} = s.queued := by
  have hsum : (s.take i owner task rest).queued + ↑(s.workers owner).queue = s.queued + ↑rest :=
    sum_setQueue (fun queue => (queue : Multiset Task)) rest
  rw [Multiset.coe_eq_coe.mpr hperm, ← Multiset.cons_coe, ← Multiset.singleton_add, ← add_assoc] at hsum
  exact add_right_cancel hsum

theorem queued_pushTask {task : Task} : (s.pushTask task i).queued = s.queued + {task} := by
  have hsum : (s.pushTask task i).queued + ↑(s.workers i).queue = s.queued + ↑((s.workers i).queue ++ [task]) :=
    sum_setQueue (s := s) (fun queue => (queue : Multiset Task)) _
  rw [← Multiset.coe_add, add_comm (↑(s.workers i).queue : Multiset Task), ← add_assoc] at hsum
  exact add_right_cancel hsum

namespace TasksConserved

theorem worker (hs : TasksConserved s) (h : WorkerMoves s i t) : TasksConserved t := by
  cases h with
  | goes dest hown => exact hs
  | takes owner task rest hperm =>
    calc (s.pushed : Multiset Task)
      _ = s.popped.map Prod.snd + s.queued := hs
      _ = s.popped.map Prod.snd + ((s.take i owner task rest).queued + {task}) := by rw [queued_take hperm]
      _ = task ::ₘ ↑(s.popped.map Prod.snd) + (s.take i owner task rest).queued := by
        rw [add_comm _ ({task} : Multiset Task), Multiset.singleton_add, Multiset.add_cons, Multiset.cons_add]
  | wakes signal hsignal =>
    have hqueued : ((s.setSignal i signal).goTo i .testRunning).queued = s.queued := queued_setSignal
    rw [TasksConserved, hqueued]
    exact hs

theorem producer {p p' : ProducerAt n Task} (hs : TasksConserved s) (h : ProducerMoves s p p' t) : TasksConserved t := by
  cases h with
  | goes p' waiting next queued hslot howes huses => exact hs
  | acquires task free hp hfree => exact hs
  | releases hp => exact hs
  | pushes task i hp =>
    calc (task ::ₘ ↑s.pushed : Multiset Task)
      _ = {task} + (s.popped.map Prod.snd + s.queued) := by rw [← Multiset.singleton_add, hs]
      _ = s.popped.map Prod.snd + (s.pushTask task i).queued := by
        rw [queued_pushTask, add_comm, add_assoc]
  | signals i hp =>
    rw [TasksConserved, queued_setSignal]
    exact hs

end TasksConserved

theorem TasksConserved.moves (hs : TasksConserved s) (h : Moves s t) : TasksConserved t := by
  cases h with
  | run task => exact hs
  | producer p p' t producers hreplaces hmoves =>
    have ht : TasksConserved t := hs.producer hmoves
    exact ht
  | worker i t hmoves => exact hs.worker hmoves

namespace SlotsConserved
variable {maxQueueSize : Nat}

theorem worker (hs : SlotsConserved maxQueueSize s) (h : WorkerMoves s i t) : SlotsConserved maxQueueSize t := by
  obtain ⟨free, hfree, hsum⟩ := hs
  rw [← card_queued] at hsum
  cases h with
  | goes dest hown => exact ⟨free, hfree, by rw [← card_queued]; exact hsum⟩
  | takes owner task rest hperm =>
    refine ⟨free + 1, congrArg (Option.map (· + 1)) hfree, ?_⟩
    rw [← queued_take (i := i) hperm, Multiset.card_add, Multiset.card_singleton] at hsum
    rw [← card_queued, ← hsum]
    change free + 1 + _ + s.producers.countP _ = _
    omega
  | wakes signal hsignal =>
    have hqueued : ((s.setSignal i signal).goTo i .testRunning).queued = s.queued := queued_setSignal
    exact ⟨free, hfree, by rw [← card_queued, hqueued]; exact hsum⟩

theorem producer {p p' : ProducerAt n Task} {producers : List (ProducerAt n Task)} (hs : SlotsConserved maxQueueSize s)
    (hreplaces : Replaces s.producers producers p p') (h : ProducerMoves s p p' t) :
    SlotsConserved maxQueueSize { t with producers := producers } := by
  obtain ⟨free, hfree, hsum⟩ := hs
  have hcount := hreplaces.countP ProducerAt.holdsSlot
  cases h with
  | goes p' waiting next queued hslot howes huses =>
    rw [hslot (by rw [hfree]; rfl)] at hcount
    refine ⟨free, hfree, ?_⟩
    dsimp only
    omega
  | acquires task free' hp hfree' =>
    rw [hfree, Option.some.injEq] at hfree'
    rw [hp] at hcount
    refine ⟨free', rfl, ?_⟩
    simp [ProducerAt.holdsSlot] at hcount ⊢
    omega
  | releases hp =>
    rw [hp] at hcount
    refine ⟨free + 1, congrArg (Option.map (· + 1)) hfree, ?_⟩
    simp [ProducerAt.holdsSlot] at hcount ⊢
    omega
  | pushes task i hp =>
    rw [hp] at hcount
    refine ⟨free, hfree, ?_⟩
    rw [← card_queued] at hsum ⊢
    have hqueued : ({ s.pushTask task i with producers := producers } : ThreadPool n Task).queued = s.queued + {task} :=
      queued_pushTask
    rw [hqueued, Multiset.card_add, Multiset.card_singleton]
    simp [ProducerAt.holdsSlot] at hcount ⊢
    omega
  | signals i hp =>
    rw [hp] at hcount
    refine ⟨free, hfree, ?_⟩
    simp only [queue_setSignal]
    simp [ProducerAt.holdsSlot] at hcount ⊢
    omega

theorem moves (hs : SlotsConserved maxQueueSize s) (h : Moves s t) : SlotsConserved maxQueueSize t := by
  cases h with
  | run task =>
    obtain ⟨free, hfree, hsum⟩ := hs
    refine ⟨free, hfree, ?_⟩
    dsimp only
    rw [List.countP_append]
    exact hsum
  | producer p p' t producers hreplaces hmoves => exact hs.producer hreplaces hmoves
  | worker i t hmoves => exact hs.worker hmoves

end SlotsConserved

/-- Before `stop`, every task that was pushed was popped once or is in a queue, and in a bounded pool every slot is
free, with a task in a queue, or with a producer that has not pushed. -/
theorem tasks_and_slots_conserved {maxQueueSize : Nat} {es : List (Event n Task)}
    (hrun : (system n Task).Run (fun _ _ => True) (started n Task maxQueueSize) es s) (hstop : s.stopAt = .notCalled) :
    TasksConserved s ∧ (0 < maxQueueSize →
      SlotsConserved maxQueueSize s ∧ ∑ i, (s.workers i).queue.length ≤ maxQueueSize) := by
  refine ⟨before_stop ?_ (fun hs _ h => hs.moves h) hrun hstop, ?_⟩
  · simp [TasksConserved, queued, started]
  · intro hmax
    have hslots : SlotsConserved maxQueueSize s := by
      refine before_stop ?_ (fun hs _ h => hs.moves h) hrun hstop
      exact ⟨maxQueueSize, by simp [started, hmax], by simp [started]⟩
    refine ⟨hslots, ?_⟩
    obtain ⟨free, -, hsum⟩ := hslots
    omega

/-- A task is pushed onto the queue of another worker and stolen, and a second producer has the slot again. -/
def stolen (thief : Fin n) : List (Event n Nat) :=
  .run 7 :: List.replicate 10 (.producer 0) ++ List.replicate 4 (.worker thief true) ++
    .run 8 :: List.replicate 4 (.producer 1)

theorem stolen_conserved :
    ∃ s, (system 2 Nat).Run (fun _ _ => True) (started 2 Nat 1) (stolen 1) s ∧
      s.stopAt = .notCalled ∧ s.popped = [(1, 7)] ∧ s.queueSlots = some 0 ∧
      TasksConserved s ∧ (0 < 1 → SlotsConserved 1 s ∧ ∑ i, (s.workers i).queue.length ≤ 1) := by
  refine Stepper.Run.replay rfl ?_
  intro hrun
  exact ⟨rfl, rfl, rfl, tasks_and_slots_conserved hrun rfl⟩

end ThreadPool
end Muduo
