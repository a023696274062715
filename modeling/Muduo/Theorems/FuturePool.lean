import Mathlib.Algebra.Order.BigOperators.Group.Finset
import Muduo.FuturePool
import Muduo.Lib.Simulation
import Muduo.Theorems.ThreadPoolSignals

/-! # What becomes of futures

The task of a promise is in one place at a time: with the thread that submits it, in a queue, or with the thread that
runs it. Where it goes the promise is set, or let go of; so each function is called at most once, and when the pool has
been stopped and no thread is in `submit`, no future is waited for in vain. -/

namespace Muduo
open Lib

/-! ## Where tasks are -/

namespace ThreadPool
variable {n : Nat} {Task : Type} [DecidableEq Task] {s t : ThreadPool n Task} {i : Fin n} {x : Task}

def inQueues (x : Task) (s : ThreadPool n Task) : Nat := ∑ j, (s.workers j).queue.count x

theorem inQueues_pos : 0 < inQueues x s ↔ ∃ j, x ∈ (s.workers j).queue := by
  simp [inQueues, Nat.pos_iff_ne_zero, Finset.sum_eq_zero_iff, List.count_eq_zero]

/-- How often a task is with a producer, in a queue or with a worker. -/
def copies (x : Task) (s : ThreadPool n Task) : Nat :=
  s.producers.countP (fun p => p.task = some x) + inQueues x s + ∑ j, if (s.workerAt j).task = some x then 1 else 0

theorem copies_goTo (dest : WorkerAt Task) :
    copies x (s.goTo i dest) + (if (s.workerAt i).task = some x then 1 else 0) =
      copies x s + if dest.task = some x then 1 else 0 := by
  let held (w : WorkerAt Task) : Nat := if w.task = some x then 1 else 0
  have hupdate : (fun j => held ((s.goTo i dest).workerAt j)) =
      Function.update (fun j => held (s.workerAt j)) i (held dest) := by
    funext j
    exact Function.apply_update (fun _ => held) s.workerAt i dest j
  have hsum : ∑ j, held ((s.goTo i dest).workerAt j) + held (s.workerAt i) = ∑ j, held (s.workerAt j) + held dest := by
    rw [hupdate]
    exact sum_update _ i _
  change s.producers.countP _ + inQueues x s + ∑ j, held ((s.goTo i dest).workerAt j) + held (s.workerAt i) =
    s.producers.countP _ + inQueues x s + ∑ j, held (s.workerAt j) + held dest
  omega

theorem copies_setQueue (queue : List Task) :
    copies x (s.setQueue i queue) + (s.workers i).queue.count x = copies x s + queue.count x := by
  have hsum : inQueues x (s.setQueue i queue) + (s.workers i).queue.count x = inQueues x s + queue.count x :=
    sum_setQueue (s := s) (i := i) (List.count x) queue
  have hrest : copies x (s.setQueue i queue) = s.producers.countP (fun p => p.task = some x) +
    inQueues x (s.setQueue i queue) + ∑ j, if (s.workerAt j).task = some x then 1 else 0 := rfl
  rw [hrest, copies]
  omega

theorem copies_congr (hproducers : t.producers = s.producers) (hqueues : ∀ j, (t.workers j).queue = (s.workers j).queue)
    (hat : t.workerAt = s.workerAt) : copies x t = copies x s := by
  simp only [copies, inQueues, hproducers, hqueues, hat]

/-- A worker that takes a task has none before. -/
theorem copies_take {owner : Fin n} {task : Task} {rest : List Task} (hidle : (s.workerAt i).task = none)
    (hperm : (s.workers owner).queue.Perm (task :: rest)) : copies x (s.take i owner task rest) = copies x s := by
  have hqueue := copies_setQueue (s := s) (i := owner) (x := x) rest
  have hgo := copies_goTo (s := s.setQueue owner rest) (i := i) (x := x) (.running task)
  have hat : (s.setQueue owner rest).workerAt i = s.workerAt i := rfl
  have hsame : copies x (s.take i owner task rest) = copies x ((s.setQueue owner rest).goTo i (.running task)) := rfl
  rw [hat, hidle] at hgo
  rw [hperm.count_eq, List.count_cons] at hqueue
  simp only [WorkerAt.task, Option.some.injEq, reduceCtorEq, if_false] at hgo
  rw [hsame]
  by_cases htask : task = x
  · subst htask
    simp only [beq_self_eq_true, if_true] at hqueue hgo
    omega
  · simp only [htask, beq_iff_eq, if_false] at hqueue hgo
    omega

omit [DecidableEq Task] in
theorem task_of_idle {at' : WorkerAt Task} (h : ∀ task, at' ≠ .running task) : at'.task = none := by
  cases at' with
  | running task => exact absurd rfl (h task)
  | _ => rfl

/-- A step of a worker takes away the task that it runs. -/
theorem copies_of_worker {locked : Bool} (h : s.worker i locked = some t) :
    copies x t + (if (s.workerAt i).task = some x then 1 else 0) = copies x s := by
  cases workerMoves_of_worker h with
  | goes dest _ hidle =>
    have hgo := copies_goTo (s := s) (i := i) (x := x) dest
    simpa [task_of_idle hidle] using hgo
  | takes owner task rest hperm hidle =>
    have hnone := task_of_idle hidle
    simp [hnone, copies_take hnone hperm]
  | wakes signal _ hat =>
    have hgo := copies_goTo (s := s.setSignal i signal) (i := i) (x := x) .testRunning
    have hsame : (s.setSignal i signal).workerAt i = s.workerAt i := rfl
    have hsignal : copies x (s.setSignal i signal) = copies x s := copies_congr rfl queue_setSignal rfl
    rw [hsame, hsignal] at hgo
    simpa [WorkerAt.task] using hgo

theorem inQueues_pushTask (task : Task) : inQueues x (s.pushTask task i) = inQueues x s + if task = x then 1 else 0 := by
  have hsum : inQueues x (s.pushTask task i) + (s.workers i).queue.count x =
      inQueues x s + ((s.workers i).queue ++ [task]).count x :=
    sum_setQueue (s := s) (i := i) (List.count x) _
  rw [List.count_append, List.count_singleton] at hsum
  simp only [beq_iff_eq] at hsum
  omega

omit [DecidableEq Task] in
/-- A producer keeps its task, pushes it, or lets it be destroyed. -/
theorem task_of_producer {p p' : ProducerAt n Task} (h : s.producer p = some (p', t)) :
    (t.workerAt = s.workerAt ∧ t.isRunning = s.isRunning ∧ t.stopAt = s.stopAt) ∧
      ((∃ task j, p = .push task j ∧ t = s.pushTask task j ∧ p'.task = none) ∨
        p.dropped p' = (if p'.task.isSome then none else p.task) ∧ (p'.task = none ∨ p'.task = p.task) ∧
          ∀ j, (t.workers j).queue = (s.workers j).queue) := by
  cases p with
  | run task | testRunning task =>
    simp only [producer] at h
    split at h
    · cases h
      exact ⟨⟨rfl, rfl, rfl⟩, .inr ⟨rfl, .inl rfl, fun _ => rfl⟩⟩
    · split at h
      · cases h
        exact ⟨⟨rfl, rfl, rfl⟩, .inr ⟨rfl, by simp [ProducerAt.task], fun _ => rfl⟩⟩
      · cases h
        exact ⟨⟨rfl, rfl, rfl⟩, .inr ⟨rfl, .inr rfl, fun _ => rfl⟩⟩
  | incrementWaiting task | decrementWaiting task =>
    cases h
    exact ⟨⟨rfl, rfl, rfl⟩, .inr ⟨rfl, .inr rfl, fun _ => rfl⟩⟩
  | acquireSlot task =>
    simp only [producer] at h
    split at h
    · cases h
      exact ⟨⟨rfl, rfl, rfl⟩, .inr ⟨rfl, .inr rfl, fun _ => rfl⟩⟩
    · cases h
  | retestRunning task =>
    simp only [producer, Option.some.injEq, Prod.mk.injEq] at h
    obtain ⟨rfl, rfl⟩ := h
    refine ⟨⟨rfl, rfl, rfl⟩, .inr ⟨rfl, ?_, fun _ => rfl⟩⟩
    split
    · exact .inr rfl
    · exact .inl rfl
  | releaseSlot =>
    cases h
    exact ⟨⟨rfl, rfl, rfl⟩, .inr ⟨rfl, .inl rfl, fun _ => rfl⟩⟩
  | nextWorker task =>
    simp only [producer] at h
    split at h
    · cases h
      exact ⟨⟨rfl, rfl, rfl⟩, .inr ⟨rfl, .inr rfl, fun _ => rfl⟩⟩
    · cases h
      exact ⟨⟨rfl, rfl, rfl⟩, .inr ⟨rfl, .inl rfl, fun _ => rfl⟩⟩
  | push task j =>
    cases h
    exact ⟨⟨rfl, rfl, rfl⟩, .inl ⟨task, j, rfl, rfl, rfl⟩⟩
  | incrementQueued j needsWake =>
    simp only [producer, Option.some.injEq, Prod.mk.injEq] at h
    obtain ⟨rfl, rfl⟩ := h
    exact ⟨⟨rfl, rfl, rfl⟩, .inr ⟨rfl, .inl (by cases needsWake <;> rfl), fun _ => rfl⟩⟩
  | releaseSignal j =>
    cases h
    exact ⟨⟨rfl, rfl, rfl⟩, .inr ⟨rfl, .inl rfl, queue_setSignal⟩⟩
  | returned => cases h

theorem copies_of_producer {p p' : ProducerAt n Task} {k : Nat} (hp : s.producers[k]? = some p)
    (h : s.producer p = some (p', t)) :
    copies x { t with producers := s.producers.set k p' } + (if p.dropped p' = some x then 1 else 0) = copies x s := by
  have hcount := (replaces_set hp p').countP fun p => p.task = some x
  simp only [decide_eq_true_eq] at hcount
  obtain ⟨⟨hat, -, -⟩, ⟨task, j, rfl, rfl, hnone⟩ | ⟨hdropped, htask, hqueues⟩⟩ := task_of_producer h
  · have hpush := inQueues_pushTask (s := s) (i := j) (x := x) task
    have hhand : (ProducerAt.push task j).task = some task := rfl
    rw [hhand, hnone] at hcount
    simp only [Option.some.injEq, reduceCtorEq, if_false] at hcount
    simp only [inQueues] at hpush
    simp only [copies, inQueues, ProducerAt.dropped, hat, reduceCtorEq, if_false]
    omega
  · simp only [copies, inQueues, hat, hqueues, hdropped]
    rcases htask with htask | htask <;> rw [htask] at hcount ⊢
    · simp only [Option.isSome_none, Bool.false_eq_true, reduceCtorEq, if_false] at hcount ⊢
      omega
    · cases hhand : p.task with
      | none =>
        rw [hhand] at hcount
        simp only [Option.isSome_none, Bool.false_eq_true, reduceCtorEq, if_false] at hcount ⊢
        omega
      | some task =>
        rw [hhand] at hcount
        simp only [Option.isSome_some, if_true, reduceCtorEq, if_false]
        omega

theorem copies_of_reset (hat : s.stopAt = .reset) (h : s.stop = some t) :
    copies x t + inQueues x s = copies x s := by
  simp only [ThreadPool.stop, hat, Option.some.injEq] at h
  subst h
  simp only [copies, inQueues, List.count_nil, Finset.sum_const_zero]
  omega

theorem copies_of_stop (hat : s.stopAt ≠ .reset) (h : s.stop = some t) : copies x t = copies x s := by
  cases stopMoves_of_stop h with
  | signals i hi => exact copies_congr rfl queue_setSignal rfl
  | resets hreset => exact absurd hreset hat
  | _ => rfl

end ThreadPool

/-! ## After `stop` -/

/-- `stop` has joined the worker. -/
def StopAt.joined (i : Nat) : StopAt → Bool
  | .join j => i < j
  | .reset | .returned => true
  | .notCalled | .clearRunning | .exchangeWaiting | .releaseSlots _ | .releaseSignal _ => false

/-- The producer has passed the test of `running_` in `enqueueTask`, and may still use the slots or the workers. -/
def ProducerAt.usesPool {n : Nat} {Task : Type} : ProducerAt n Task → Bool
  | .run _ | .testRunning _ | .returned => false
  | _ => true

namespace ThreadPool
variable {n : Nat} {Task : Type} {s t : ThreadPool n Task} {i : Fin n}

/-- What holds during `stop`, and that nothing uses the slots or the workers after it has returned. -/
structure Stopping (s : ThreadPool n Task) : Prop where
  uncalled : s.stopAt = .notCalled → s.isRunning = true
  cleared : s.stopAt.cleared = true → s.isRunning = false
  joined : ∀ i : Fin n, s.stopAt.joined i = true → s.workerAt i = .finished
  emptied : s.stopAt = .returned → ∀ i, (s.workers i).queue = []
  quiet : s.stopAt = .returned → ∀ p ∈ s.producers, p.usesPool = false

theorem usesPool_of_producer {p p' : ProducerAt n Task} (hrunning : s.isRunning = false) (hp : p.usesPool = false)
    (h : s.producer p = some (p', t)) : p'.usesPool = false := by
  cases p with
  | run task | testRunning task =>
    simp only [producer, hrunning, Bool.not_false, if_true, Option.some.injEq, Prod.mk.injEq] at h
    exact h.1 ▸ rfl
  | returned => cases h
  | _ => cases hp

namespace Stopping

theorem called {p : ProducerAt n Task} (hs : Stopping s) (hp : p.usesPool = false) :
    Stopping { s with producers := s.producers ++ [p] } where
  uncalled := hs.uncalled
  cleared := hs.cleared
  joined := hs.joined
  emptied := hs.emptied
  quiet hat := List.forall_mem_append.mpr ⟨hs.quiet hat, List.forall_mem_singleton.mpr hp⟩

theorem producer {p p' : ProducerAt n Task} {k : Nat} (hs : Stopping s) (hp : s.producers[k]? = some p)
    (h : s.producer p = some (p', t)) : Stopping { t with producers := s.producers.set k p' } := by
  obtain ⟨⟨hat, hrunning, hstop⟩, hcases⟩ := task_of_producer h
  refine ⟨?_, ?_, ?_, ?_, ?_⟩
  · rw [hstop, hrunning]
    exact hs.uncalled
  · rw [hstop, hrunning]
    exact hs.cleared
  · rw [hstop, hat]
    exact hs.joined
  · rw [hstop]
    intro hreturned j
    have hquiet := hs.quiet hreturned p (List.mem_of_getElem? hp)
    rcases hcases with ⟨task, j', rfl, -, -⟩ | ⟨-, -, hqueues⟩
    · cases hquiet
    · exact (hqueues j).trans (hs.emptied hreturned j)
  · rw [hstop]
    intro hreturned
    have hquiet := hs.quiet hreturned
    refine (replaces_set hp p').forall_mem hquiet ?_
    exact usesPool_of_producer (hs.cleared (by rw [hreturned]; rfl)) (hquiet p (List.mem_of_getElem? hp)) h

theorem worker {locked : Bool} (hs : Stopping s) (h : s.worker i locked = some t) : Stopping t := by
  have hbusy : s.workerAt i ≠ .finished := by
    intro hat
    rw [ThreadPool.worker, hat] at h
    cases h
  have hmoves := workerMoves_of_worker h
  have hothers : ∀ j, j ≠ i → t.workerAt j = s.workerAt j := by
    intro j hj
    cases hmoves <;> simp [goTo, take, setQueue, setSignal, hj]
  have hsame : t.stopAt = s.stopAt ∧ t.isRunning = s.isRunning ∧ t.producers = s.producers := by
    cases hmoves <;> exact ⟨rfl, rfl, rfl⟩
  obtain ⟨hstop, hrunning, hproducers⟩ := hsame
  have hjoining : s.stopAt ≠ .returned := fun hat => hbusy (hs.joined i (by rw [hat]; rfl))
  refine ⟨?_, ?_, ?_, ?_, ?_⟩
  · rw [hstop, hrunning]
    exact hs.uncalled
  · rw [hstop, hrunning]
    exact hs.cleared
  · rw [hstop]
    intro j hjoined
    have hfinished := hs.joined j hjoined
    by_cases hji : j = i
    · exact absurd (hji ▸ hfinished) hbusy
    · rw [hothers j hji, hfinished]
  · rw [hstop]
    exact fun hat => absurd hat hjoining
  · rw [hstop]
    exact fun hat => absurd hat hjoining

/-- A step of `stop` before the last one leaves the workers where they are. -/
theorem stopping_goes {stopAt : StopAt} (hs : Stopping s) (hworkers : t.workerAt = s.workerAt) (hat : t.stopAt = stopAt)
    (hcalled : stopAt ≠ .notCalled) (hreturned : stopAt ≠ .returned)
    (hcleared : stopAt.cleared = true → t.isRunning = false)
    (hjoined : ∀ i : Fin n, stopAt.joined i = true → s.stopAt.joined i = true ∨ s.workerAt i = .finished) : Stopping t := by
  subst hat
  refine ⟨fun h => absurd h hcalled, hcleared, ?_, fun h => absurd h hreturned, fun h => absurd h hreturned⟩
  intro i hi
  rw [hworkers]
  exact (hjoined i hi).elim (hs.joined i) id

theorem stop (hs : Stopping s) (hquiet : s.stopAt = .reset → ∀ p ∈ s.producers, p.usesPool = false)
    (h : StopMoves s t) : Stopping t := by
  have hrunning : s.stopAt.cleared = true → t.stopAt.cleared = true → t.isRunning = false := by
    intro hbefore hafter
    rcases h.cleared hafter with hrunning | ⟨-, hsame⟩
    · exact hrunning
    · exact hsame.trans (hs.cleared hbefore)
  cases h with
  | tests hat =>
    simp only [hs.uncalled hat, if_true]
    exact stopping_goes hs rfl rfl (by simp) (by simp) (fun hc => by cases hc) (fun _ hj => by cases hj)
  | clears hat => refine stopping_goes hs rfl rfl ?_ ?_ (fun _ => rfl) ?_ <;> split <;> simp [StopAt.joined]
  | exchanges hat | frees _ hat | signals _ _ hat | signalled _ hat =>
    refine stopping_goes hs rfl rfl (by simp) (by simp) (hrunning (by rw [hat]; rfl)) fun _ hj => ?_
    simp [StopAt.joined] at hj
  | joins k hk hat hfinished =>
    refine stopping_goes hs rfl rfl (by simp) (by simp) (hrunning (by rw [hat]; rfl)) ?_
    intro i hi
    have hle : i.val ≤ k := Nat.le_of_lt_succ (by simpa [StopAt.joined] using hi)
    rcases Nat.lt_or_eq_of_le hle with hlt | heq
    · exact .inl (by simpa [hat, StopAt.joined] using hlt)
    · subst heq
      exact .inr hfinished
  | joined k hall hat =>
    refine stopping_goes hs rfl rfl (by simp) (by simp) (hrunning (by rw [hat]; rfl)) ?_
    intro i _
    exact .inl (by simpa [hat, StopAt.joined] using Nat.lt_of_lt_of_le i.isLt hall)
  | resets hat =>
    refine ⟨?_, hrunning (by rw [hat]; rfl), fun i _ => hs.joined i (by rw [hat]; rfl), fun _ _ => rfl, fun _ => hquiet hat⟩
    exact fun hcalled => by cases hcalled

end Stopping
end ThreadPool

/-! ## Promises -/

section
variable {R : Type} {promises promises' : List (SharedPromise R)} {called : List Nat} {tasks tasks' : Nat → Nat}
  {k : Nat}

/-- A promise, with how often its task is somewhere and whether its function was called. -/
structure SharedPromise.Tracked (copies : Nat) (called : Prop) (p : SharedPromise R) : Prop where
  task : copies = p.inTask.toNat
  unset : p.inTask = true → p.value = none
  called : p.value.isSome = true ↔ called

/-- The task of a promise is in one place, or its function was called or will not be. -/
structure TaskLedger (promises : List (SharedPromise R)) (called : List Nat) (tasks : Nat → Nat) : Prop where
  tracked : ∀ k (p : SharedPromise R), promises[k]? = some p → p.Tracked (tasks k) (k ∈ called)
  fresh : ∀ k, promises.length ≤ k → tasks k = 0 ∧ k ∉ called
  nodup : called.Nodup

namespace TaskLedger

theorem congr (h : TaskLedger promises called tasks) (htasks : ∀ k, tasks' k = tasks k) : TaskLedger promises called tasks' := by
  rw [funext htasks]
  exact h

/-- A task that is somewhere is that of a promise that was not set. -/
theorem pending (h : TaskLedger promises called tasks) (hk : 0 < tasks k) :
    ∃ p, promises[k]? = some p ∧ tasks k = 1 ∧ p.inTask = true ∧ p.value = none ∧ k ∉ called := by
  have hlt : k < promises.length := by
    by_contra hge
    have hnone := (h.fresh k (Nat.le_of_not_lt hge)).1
    omega
  have hp : promises[k]? = some promises[k] := List.getElem?_eq_getElem hlt
  obtain ⟨htask, hunset, hcalled⟩ := h.tracked k _ hp
  have hin : promises[k].inTask = true := by
    by_contra hnot
    rw [Bool.not_eq_true] at hnot
    rw [hnot] at htask
    simp only [Bool.toNat_false] at htask
    omega
  refine ⟨promises[k], hp, by rw [htask, hin]; rfl, hin, hunset hin, ?_⟩
  rw [← hcalled, hunset hin]
  exact Bool.false_ne_true

/-- The task of one promise goes, and the promise is changed. -/
theorem modify {f : SharedPromise R → SharedPromise R} {called' : List Nat} (h : TaskLedger promises called tasks)
    (htasks : ∀ j, tasks' j + (if k = j then 1 else 0) = tasks j) (hnodup : k ∉ called → called'.Nodup)
    (hcalled : ∀ j, j ≠ k → (j ∈ called' ↔ j ∈ called))
    (hf : ∀ p, p.inTask = true → p.value = none → k ∉ called → (f p).Tracked 0 (k ∈ called')) :
    TaskLedger (promises.modify k f) called' tasks' := by
  have hk := htasks k
  rw [if_pos rfl] at hk
  obtain ⟨p, hp, hone, hin, hvalue, hnew⟩ := h.pending (k := k) (by omega)
  have hothers : ∀ j, j ≠ k → tasks' j = tasks j := by
    intro j hj
    have hsame := htasks j
    rw [if_neg (Ne.symm hj)] at hsame
    omega
  refine ⟨?_, ?_, hnodup hnew⟩
  · intro j q hq
    by_cases hj : j = k
    · subst hj
      rw [List.getElem?_modify_eq, hp] at hq
      obtain rfl : f p = q := Option.some.inj hq
      obtain hzero : tasks' j = 0 := by omega
      rw [hzero]
      exact hf p hin hvalue hnew
    · rw [List.getElem?_modify_ne _ _ (Ne.symm hj)] at hq
      rw [hothers j hj, hcalled j hj]
      exact h.tracked j q hq
  · intro j hj
    rw [List.length_modify] at hj
    have hne : j ≠ k := by
      have hlt := (List.getElem?_eq_some_iff.mp hp).1
      omega
    rw [hothers j hne, hcalled j hne]
    exact h.fresh j hj

/-- What does not change who has the task and the value. -/
theorem leave {f : SharedPromise R → SharedPromise R} (h : TaskLedger promises called tasks)
    (hf : ∀ p, (f p).inTask = p.inTask ∧ (f p).value = p.value) : TaskLedger (promises.modify k f) called tasks := by
  refine ⟨?_, ?_, h.nodup⟩
  · intro j q hq
    by_cases hj : j = k
    · subst hj
      rw [List.getElem?_modify_eq] at hq
      obtain ⟨p, hp, rfl⟩ := Option.map_eq_some_iff.mp hq
      obtain ⟨htask, hunset, hcalled⟩ := h.tracked j p hp
      obtain ⟨hin, hvalue⟩ := hf p
      exact ⟨by rw [hin, htask], by rw [hin, hvalue]; exact hunset, by rw [hvalue]; exact hcalled⟩
    · rw [List.getElem?_modify_ne _ _ (Ne.symm hj)] at hq
      exact h.tracked j q hq
  · intro j hj
    rw [List.length_modify] at hj
    exact h.fresh j hj

theorem submit (h : TaskLedger promises called tasks)
    (htasks : ∀ j, tasks' j = tasks j + if promises.length = j then 1 else 0) :
    TaskLedger (promises ++ [({} : SharedPromise R)]) called tasks' := by
  refine ⟨?_, ?_, h.nodup⟩
  · intro j q hq
    rw [htasks]
    rcases getElem?_concat_eq_some.mp hq with hq | ⟨rfl, rfl⟩
    · have hlt := (List.getElem?_eq_some_iff.mp hq).1
      rw [if_neg (by omega), Nat.add_zero]
      exact h.tracked j q hq
    · obtain ⟨hnone, hnot⟩ := h.fresh _ (Nat.le_refl _)
      rw [if_pos rfl, hnone]
      exact ⟨rfl, fun _ => rfl, by simpa using hnot⟩
  · intro j hj
    rw [List.length_append, List.length_singleton] at hj
    rw [htasks, if_neg (by omega), Nat.add_zero]
    exact h.fresh j (by omega)

/-- The tasks that were in one of the places go. -/
theorem clear {gone : Nat → Nat} {isGone : Nat → Prop} [DecidablePred isGone] (h : TaskLedger promises called tasks)
    (htasks : ∀ j, tasks' j + gone j = tasks j) (hgone : ∀ j, isGone j ↔ 0 < gone j) :
    TaskLedger (promises.mapIdx fun j p => if isGone j then { p with inTask := false } else p) called tasks' := by
  refine ⟨?_, ?_, h.nodup⟩
  · intro j q hq
    rw [List.getElem?_mapIdx] at hq
    obtain ⟨p, hp, rfl⟩ := Option.map_eq_some_iff.mp hq
    have hsum := htasks j
    obtain ⟨htask, hunset, hcalled⟩ := h.tracked j p hp
    split
    · rename_i hisGone
      have hpos := (hgone j).mp hisGone
      have hone := (h.pending (k := j) (by omega)).choose_spec.2.1
      have hzero : tasks' j = 0 := by omega
      exact ⟨hzero, fun hin => absurd hin Bool.false_ne_true, hcalled⟩
    · rename_i hkept
      have hnone : gone j = 0 := Nat.eq_zero_of_not_pos fun hpos => hkept ((hgone j).mpr hpos)
      exact ⟨by omega, hunset, hcalled⟩
  · intro j hj
    rw [List.length_mapIdx] at hj
    have hsum := htasks j
    obtain ⟨hnone, hnot⟩ := h.fresh j hj
    exact ⟨by omega, hnot⟩

end TaskLedger
end

namespace FuturePool
open ThreadPool
variable {n : Nat} {R : Type} {s t : FuturePool n R}

/-- How often the task of a promise is somewhere. -/
def tasks (s : FuturePool n R) (k : Nat) : Nat := s.pool.copies (some k) + s.inPlace.count k

@[simp] theorem pool_finishTask (task : Option Nat) (result : R) : (s.finishTask task result).pool = s.pool := by
  cases task <;> rfl

@[simp] theorem inPlace_finishTask (task : Option Nat) (result : R) : (s.finishTask task result).inPlace = s.inPlace := by
  cases task <;> rfl

@[simp] theorem callers_finishTask (task : Option Nat) (result : R) : (s.finishTask task result).callers = s.callers := by
  cases task <;> rfl

@[simp] theorem pool_dropTask (task : Option Nat) : (s.dropTask task).pool = s.pool := by
  cases task <;> rfl

@[simp] theorem inPlace_dropTask (task : Option Nat) : (s.dropTask task).inPlace = s.inPlace := by
  cases task <;> rfl

@[simp] theorem callers_dropTask (task : Option Nat) : (s.dropTask task).callers = s.callers := by
  cases task <;> rfl

@[simp] theorem pool_leave (caller : Option Nat) : (s.leave caller).pool = s.pool := by
  cases caller <;> rfl

@[simp] theorem inPlace_leave (caller : Option Nat) : (s.leave caller).inPlace = s.inPlace := by
  cases caller <;> rfl

@[simp] theorem callers_leave (caller : Option Nat) : (s.leave caller).callers = s.callers := by
  cases caller <;> rfl

theorem ledger_finishTask {tasks tasks' : Nat → Nat} {task : Option Nat} (result : R)
    (h : TaskLedger s.promises s.called tasks) (htasks : ∀ j, tasks' j + (if task = some j then 1 else 0) = tasks j) :
    TaskLedger (s.finishTask task result).promises (s.finishTask task result).called tasks' := by
  cases task with
  | none => exact h.congr fun j => by simpa using htasks j
  | some k =>
    refine h.modify (by simpa using htasks) (fun hnew => List.nodup_cons.mpr ⟨hnew, h.nodup⟩) ?_ ?_
    · intro j hj
      simp [finishTask, hj]
    · intro p hin hvalue hnew
      exact ⟨rfl, fun hin' => absurd hin' Bool.false_ne_true, by simp [finishTask]⟩

theorem ledger_dropTask {tasks tasks' : Nat → Nat} {task : Option Nat} (h : TaskLedger s.promises s.called tasks)
    (htasks : ∀ j, tasks' j + (if task = some j then 1 else 0) = tasks j) :
    TaskLedger (s.dropTask task).promises (s.dropTask task).called tasks' := by
  cases task with
  | none => exact h.congr fun j => by simpa using htasks j
  | some k =>
    refine h.modify (by simpa using htasks) (fun _ => h.nodup) (fun _ _ => Iff.rfl) ?_
    intro p hin hvalue hnew
    refine ⟨rfl, fun hin' => absurd hin' Bool.false_ne_true, ?_⟩
    simpa [dropTask, hvalue] using hnew

theorem ledger_leave {tasks : Nat → Nat} (caller : Option Nat) (h : TaskLedger s.promises s.called tasks) :
    TaskLedger (s.leave caller).promises (s.leave caller).called tasks := by
  cases caller with
  | none => exact h
  | some k => exact h.leave fun p => ⟨rfl, rfl⟩

/-! ## Who is in `submit` -/

/-- The call of `submit` that has made the promise has not returned. -/
def InSubmit (promises : List (SharedPromise R)) (k : Nat) : Prop := ∃ p, promises[k]? = some p ∧ p.inSubmit = true

theorem inSubmit_modify {promises : List (SharedPromise R)} {f : SharedPromise R → SharedPromise R} {j k : Nat}
    (h : InSubmit (promises.modify j f) k) (hf : ∀ p, (f p).inSubmit = true → p.inSubmit = true) : InSubmit promises k := by
  obtain ⟨p, hp, hin⟩ := h
  by_cases hj : k = j
  · subst hj
    rw [List.getElem?_modify_eq] at hp
    obtain ⟨q, hq, rfl⟩ := Option.map_eq_some_iff.mp hp
    exact ⟨q, hq, hf q hin⟩
  · rw [List.getElem?_modify_ne _ _ (Ne.symm hj)] at hp
    exact ⟨p, hp, hin⟩

theorem inSubmit_finishTask {task : Option Nat} {result : R} {k : Nat}
    (h : InSubmit (s.finishTask task result).promises k) : InSubmit s.promises k := by
  cases task with
  | none => exact h
  | some j => exact inSubmit_modify h fun _ hin => hin

theorem inSubmit_dropTask {task : Option Nat} {k : Nat} (h : InSubmit (s.dropTask task).promises k) :
    InSubmit s.promises k := by
  cases task with
  | none => exact h
  | some j => exact inSubmit_modify h fun _ hin => hin

theorem inSubmit_leave {caller : Option Nat} {k : Nat} (h : InSubmit (s.leave caller).promises k) :
    InSubmit s.promises k ∧ caller ≠ some k := by
  cases caller with
  | none => exact ⟨h, by simp⟩
  | some j =>
    refine ⟨inSubmit_modify h fun _ hin => absurd hin Bool.false_ne_true, ?_⟩
    rintro heq
    cases heq
    obtain ⟨p, hp, hin⟩ := h
    simp only [leave, List.getElem?_modify_eq] at hp
    obtain ⟨q, -, rfl⟩ := Option.map_eq_some_iff.mp hp
    exact absurd hin Bool.false_ne_true

/-- Whoever is in `submit` runs the task in place or is among the producers. -/
structure Callers (s : FuturePool n R) : Prop where
  length : s.callers.length = s.pool.producers.length
  held : ∀ k, InSubmit s.promises k → k ∈ s.inPlace ∨
    ∃ (j : Nat) (p : ProducerAt n (Option Nat)), s.callers[j]? = some (some k) ∧ s.pool.producers[j]? = some p ∧ p.isReturned = false

structure Inv (s : FuturePool n R) : Prop where
  ledger : TaskLedger s.promises s.called s.tasks
  callers : Callers s
  stopping : Stopping s.pool

theorem Inv.init (maxQueueSize : Nat) : Inv (started n R maxQueueSize) where
  ledger := by
    refine ⟨?_, ?_, List.nodup_nil⟩
    · intro k p hp
      cases hp
    · intro k _
      refine ⟨?_, List.not_mem_nil⟩
      simp [tasks, copies, inQueues, started, ThreadPool.started, WorkerAt.task]
  callers := by
    refine ⟨rfl, ?_⟩
    rintro k ⟨p, hp, -⟩
    cases hp
  stopping := by
    refine ⟨fun _ => rfl, ?_, ?_, ?_, ?_⟩
    · intro h
      cases h
    · intro i h
      cases h
    · intro h
      cases h
    · intro h
      cases h

/-! ## Steps -/

/-- A producer is added, with its promise if it has one. -/
theorem Callers.add {caller : Option Nat} {p : ProducerAt n (Option Nat)} {promises : List (SharedPromise R)}
    (hs : Callers s) (hp : p.isReturned = false) (hnew : ∀ k, InSubmit promises k → InSubmit s.promises k ∨ caller = some k) :
    Callers { s with
      pool := { s.pool with producers := s.pool.producers ++ [p] }
      callers := s.callers ++ [caller]
      promises := promises } := by
  refine ⟨by simp [hs.length], ?_⟩
  intro k hk
  rcases hnew k hk with hold | hcaller
  · refine (hs.held k hold).imp_right ?_
    rintro ⟨j, q, hj, hq, hreturned⟩
    exact ⟨j, q, getElem?_concat_eq_some.mpr (.inl hj), getElem?_concat_eq_some.mpr (.inl hq), hreturned⟩
  · refine .inr ⟨s.callers.length, p, ?_, ?_, hp⟩
    · rw [hcaller]
      exact List.getElem?_concat_length
    · rw [hs.length]
      exact List.getElem?_concat_length

theorem copies_add {p : ProducerAt n (Option Nat)} {pool : ThreadPool n (Option Nat)} (x : Option Nat) :
    copies x { pool with producers := pool.producers ++ [p] } = copies x pool + if p.task = some x then 1 else 0 := by
  simp only [copies, inQueues, List.countP_append, List.countP_singleton, decide_eq_true_eq]
  omega

theorem Inv.run (hs : Inv s) :
    Inv { s with
      pool := { s.pool with producers := s.pool.producers ++ [.run none] }
      callers := s.callers ++ [none] } where
  ledger := by
    refine hs.ledger.congr fun k => ?_
    simp [tasks, copies_add, ProducerAt.task]
  callers := hs.callers.add rfl fun k hk => .inl hk
  stopping := hs.stopping.called rfl

theorem inSubmit_concat {promises : List (SharedPromise R)} {k : Nat}
    (h : InSubmit (promises ++ [({} : SharedPromise R)]) k) : InSubmit promises k ∨ some promises.length = some k := by
  obtain ⟨p, hp, hin⟩ := h
  rcases getElem?_concat_eq_some.mp hp with hp | ⟨rfl, -⟩
  · exact .inl ⟨p, hp, hin⟩
  · exact .inr rfl

theorem Inv.submit (hs : Inv s) : Inv s.submit := by
  unfold FuturePool.submit
  simp only
  split
  · constructor
    · refine hs.ledger.submit fun k => ?_
      simp [tasks, List.count_singleton, Nat.add_assoc]
    · refine ⟨hs.callers.length, ?_⟩
      intro k hk
      rcases inSubmit_concat hk with hold | hnew
      · exact (hs.callers.held k hold).imp_left fun hmem => List.mem_append_left _ hmem
      · cases hnew
        exact .inl (List.mem_append_right _ (List.mem_singleton_self _))
    · exact hs.stopping
  · constructor
    · refine hs.ledger.submit fun k => ?_
      simp only [tasks, copies_add, ProducerAt.task, Option.some.injEq]
      omega
    · exact hs.callers.add rfl fun k hk => inSubmit_concat hk
    · exact hs.stopping.called rfl

theorem Inv.runInPlace {j : Nat} {result : R} (hs : Inv s) (h : s.runInPlace j result = some t) : Inv t := by
  unfold FuturePool.runInPlace at h
  split at h
  · cases h
  · rename_i k hk
    cases h
    obtain ⟨hj, hget⟩ := List.getElem?_eq_some_iff.mp hk
    have hperm : s.inPlace.Perm (k :: s.inPlace.eraseIdx j) := hget ▸ (List.getElem_cons_eraseIdx_perm hj).symm
    constructor
    · refine ledger_leave _ (ledger_finishTask result hs.ledger ?_)
      intro i
      have hcount := hperm.count_eq i
      rw [List.count_cons] at hcount
      simp only [beq_iff_eq] at hcount
      simp only [tasks, pool_leave, pool_finishTask, inPlace_leave, inPlace_finishTask, Option.some.injEq]
      omega
    · refine ⟨by simpa using hs.callers.length, ?_⟩
      intro i hi
      obtain ⟨hi, hne⟩ := inSubmit_leave hi
      simp only [pool_leave, pool_finishTask, inPlace_leave, inPlace_finishTask, callers_leave, callers_finishTask]
      have hold := inSubmit_finishTask hi
      refine (hs.callers.held i hold).imp_left fun hmem => ?_
      refine (List.mem_cons.mp (hperm.mem_iff.mp hmem)).resolve_left ?_
      rintro rfl
      exact hne rfl
    · simpa using hs.stopping

theorem Inv.dropTask {pool : ThreadPool n (Option Nat)} {task : Option Nat} (hs : Inv s)
    (hcopies : ∀ i, pool.copies (some i) + (if task = some i then 1 else 0) = s.pool.copies (some i)) :
    TaskLedger (({ s with pool } : FuturePool n R).dropTask task).promises
      (({ s with pool } : FuturePool n R).dropTask task).called ({ s with pool } : FuturePool n R).tasks := by
  refine ledger_dropTask hs.ledger fun i => ?_
  have hsum := hcopies i
  simp only [tasks]
  omega

theorem Inv.producer {j : Nat} (hs : Inv s) (h : s.producer j = some t) : Inv t := by
  unfold FuturePool.producer at h
  split at h
  · cases h
  · rename_i p hp
    split at h
    · cases h
    · rename_i p' pool hproducer
      simp only [Option.some.injEq, callers_dropTask] at h
      -- What is said of the state before `submit` returns, and then of the one after.
      have hledger : ∀ i, copies (some i) { pool with producers := s.pool.producers.set j p' } +
          (if (p.dropped p').join = some i then 1 else 0) = copies (some i) s.pool := by
        intro i
        have hcopies := copies_of_producer (x := some i) hp hproducer
        simpa [Option.join_eq_some_iff] using hcopies
      have hheld : ∀ k, InSubmit s.promises k → (p'.isReturned = true → s.callers[j]?.join ≠ some k) →
          k ∈ s.inPlace ∨ ∃ (j' : Nat) (q : ProducerAt n (Option Nat)), s.callers[j']? = some (some k) ∧
            (s.pool.producers.set j p')[j']? = some q ∧ q.isReturned = false := by
        intro k hk hstays
        refine (hs.callers.held k hk).imp_right ?_
        rintro ⟨j', q, hcaller, hq, hreturned⟩
        by_cases hj : j = j'
        · subst hj
          refine ⟨j, p', hcaller, ?_, ?_⟩
          · rw [List.getElem?_set_self (List.getElem?_eq_some_iff.mp hp).1]
          · by_contra hleaves
            exact hstays (by simpa using hleaves) (by simp [hcaller])
        · exact ⟨j', q, hcaller, by rw [List.getElem?_set_ne hj, hq], hreturned⟩
      have hdropped := hs.dropTask hledger
      subst h
      split
      · rename_i hreturned
        refine ⟨?_, ⟨?_, ?_⟩, ?_⟩
        · refine (ledger_leave _ hdropped).congr fun i => ?_
          simp [tasks]
        · simpa using hs.callers.length
        · intro k hk
          obtain ⟨hk, hne⟩ := inSubmit_leave hk
          have hold := inSubmit_dropTask hk
          simpa using hheld k hold fun _ => hne
        · simpa using hs.stopping.producer hp hproducer
      · rename_i hstays
        refine ⟨?_, ⟨?_, ?_⟩, ?_⟩
        · refine hdropped.congr fun i => ?_
          simp [tasks]
        · simpa using hs.callers.length
        · intro k hk
          have hold := inSubmit_dropTask hk
          simpa using hheld k hold fun hreturned => absurd hreturned hstays
        · simpa using hs.stopping.producer hp hproducer

theorem Inv.worker {i : Fin n} {locked : Bool} {result : R} (hs : Inv s) (h : s.worker i locked result = some t) :
    Inv t := by
  unfold FuturePool.worker at h
  split at h
  · cases h
  · rename_i pool hworker
    cases h
    have hproducers : pool.producers = s.pool.producers := producers_of_worker (workerMoves_of_worker hworker)
    constructor
    · refine ledger_finishTask result hs.ledger ?_
      intro k
      have hcopies := copies_of_worker (x := some k) hworker
      have hjoin : (s.pool.workerAt i).task.join = some k ↔ (s.pool.workerAt i).task = some (some k) := by
        simp [Option.join_eq_some_iff]
      simp only [tasks, pool_finishTask, inPlace_finishTask, hjoin]
      omega
    · refine ⟨by simpa [hproducers] using hs.callers.length, ?_⟩
      intro k hk
      have hold := inSubmit_finishTask hk
      simpa [hproducers] using hs.callers.held k hold
    · simpa using hs.stopping.worker hworker

/-- `workers_` and `queueSlots_` are destroyed while no thread is past the test of `running_` in `enqueueTask`. -/
def ClearsQuietly (s : FuturePool n R) : Event n R → Prop
  | .stop => s.pool.stopAt = .reset → ∀ p ∈ s.pool.producers, p.usesPool = false
  | _ => True

instance (s : FuturePool n R) : ∀ e, Decidable (ClearsQuietly s e)
  | .stop => inferInstanceAs (Decidable (s.pool.stopAt = .reset → ∀ p ∈ s.pool.producers, p.usesPool = false))
  | .run | .submit | .runInPlace _ _ | .producer _ | .worker _ _ _ => inferInstanceAs (Decidable True)

theorem Inv.stop (hs : Inv s) (hquiet : ClearsQuietly s .stop) (h : s.stop = some t) : Inv t := by
  unfold FuturePool.stop at h
  split at h
  · cases h
  · rename_i pool hstop
    have hproducers : pool.producers = s.pool.producers := (stopMoves_of_stop hstop).producers
    have hstopping := hs.stopping.stop hquiet (stopMoves_of_stop hstop)
    split at h
    · rename_i hat
      cases h
      refine ⟨?_, ⟨by simpa [hproducers] using hs.callers.length, ?_⟩, hstopping⟩
      · refine hs.ledger.clear (fun k => ?_) fun k => (inQueues_pos (x := some k)).symm
        have hcopies := copies_of_reset (x := some k) hat hstop
        simp only [tasks]
        omega
      · rintro k ⟨p, hp, hin⟩
        rw [List.getElem?_mapIdx] at hp
        obtain ⟨q, hq, rfl⟩ := Option.map_eq_some_iff.mp hp
        have hold : InSubmit s.promises k := ⟨q, hq, by split at hin <;> exact hin⟩
        simpa [hproducers] using hs.callers.held k hold
    · rename_i hat
      cases h
      refine ⟨?_, ⟨by simpa [hproducers] using hs.callers.length, ?_⟩, hstopping⟩
      · refine hs.ledger.congr fun k => ?_
        simp only [tasks, copies_of_stop hat hstop]
      · intro k hk
        simpa [hproducers] using hs.callers.held k hk

theorem Inv.step {e : Event n R} (hs : Inv s) (hquiet : ClearsQuietly s e) (h : s.step e = some t) : Inv t := by
  cases e with
  | run =>
    cases h
    exact hs.run
  | submit =>
    cases h
    exact hs.submit
  | runInPlace j result => exact hs.runInPlace h
  | producer j => exact hs.producer h
  | worker i locked result => exact hs.worker h
  | stop => exact hs.stop hquiet h

/-! ## Runs -/

theorem tasks_of_running {i : Fin n} {k : Nat} (h : s.pool.workerAt i = .running (some k)) : 0 < s.tasks k := by
  have hone : 0 < ∑ j, if (s.pool.workerAt j).task = some (some k) then 1 else 0 := by
    rw [Nat.pos_iff_ne_zero, Ne, Finset.sum_eq_zero_iff]
    intro hzero
    simpa [h, WorkerAt.task] using hzero i (Finset.mem_univ i)
  simp only [tasks, copies]
  omega

/-- When the pool has been stopped and all calls have returned, no task is left. -/
theorem tasks_of_stopped (hs : Inv s) (hat : s.pool.stopAt = .returned)
    (hproducers : ∀ p ∈ s.pool.producers, p.isReturned = true) (hinPlace : s.inPlace = []) (k : Nat) : s.tasks k = 0 := by
  have hhands : s.pool.producers.countP (fun p => p.task = some (some k)) = 0 := by
    rw [List.countP_eq_zero]
    intro p hp
    have hreturned := hproducers p hp
    cases p with
    | returned => simp [ProducerAt.task]
    | _ => cases hreturned
  have hworkers : ∀ i, (s.pool.workerAt i).task = none := by
    intro i
    rw [hs.stopping.joined i (by rw [hat]; rfl)]
    rfl
  simp [tasks, copies, inQueues, hhands, hworkers, hs.stopping.emptied hat, hinPlace]

/-- For every order of the steps of the threads in `submit` and `run`, of the workers and of `stop`, if `stop` does not
destroy `workers_` and `queueSlots_` under a thread that is past the test of `running_` in `enqueueTask`: no thread comes
to use them afterwards; each function is called at most once, and its future has a value exactly when it was; the
promise that a thread is about to set was not set; and when `stop` and all calls have returned, every future has a value
or the error of a broken promise, so no one waits for it forever. -/
theorem futures_settled {maxQueueSize : Nat} {es : List (Event n R)}
    (hrun : (system n R).Run ClearsQuietly (started n R maxQueueSize) es s) :
    (s.pool.stopAt = .returned → ∀ p ∈ s.pool.producers, p.usesPool = false) ∧
    s.called.Nodup ∧
    (∀ k (p : SharedPromise R), s.promises[k]? = some p → (p.value.isSome = true ↔ k ∈ s.called)) ∧
    (∀ i k, s.pool.workerAt i = .running (some k) → ∃ p, s.promises[k]? = some p ∧ p.value = none) ∧
    (∀ k ∈ s.inPlace, ∃ p, s.promises[k]? = some p ∧ p.value = none) ∧
    (s.pool.stopAt = .returned → (∀ p ∈ s.pool.producers, p.isReturned = true) → s.inPlace = [] →
      ∀ p ∈ s.promises, p.value.isSome = true ∨ p.broken = true) := by
  have hs : Inv s := hrun.invariant (fun hs hquiet h => hs.step hquiet h) (Inv.init maxQueueSize)
  have hunset : ∀ k, 0 < s.tasks k → ∃ p, s.promises[k]? = some p ∧ p.value = none := by
    intro k hk
    obtain ⟨p, hp, -, -, hvalue, -⟩ := hs.ledger.pending hk
    exact ⟨p, hp, hvalue⟩
  refine ⟨hs.stopping.quiet, hs.ledger.nodup, fun k p hp => (hs.ledger.tracked k p hp).called, ?_, ?_, ?_⟩
  · exact fun i k hat => hunset k (tasks_of_running hat)
  · intro k hk
    have hcount := List.count_pos_iff.mpr hk
    exact hunset k (by simp only [tasks]; omega)
  · intro hat hproducers hinPlace p hp
    obtain ⟨k, hk⟩ := List.mem_iff_getElem?.mp hp
    have htask : p.inTask = false := by
      have hcopies := (hs.ledger.tracked k p hk).task
      rw [tasks_of_stopped hs hat hproducers hinPlace] at hcopies
      exact Bool.toNat_eq_zero.mp hcopies.symm
    have hsubmit : p.inSubmit = false := by
      by_contra hin
      rcases hs.callers.held k ⟨p, hk, by simpa using hin⟩ with hmem | ⟨j, q, -, hq, hleft⟩
      · rw [hinPlace] at hmem
        cases hmem
      · rw [hproducers q (List.mem_of_getElem? hq)] at hleft
        cases hleft
    cases hvalue : p.value with
    | some result => exact .inl rfl
    | none => exact .inr (by simp [SharedPromise.broken, hvalue, htask, hsubmit])

/-- One worker and one slot. The first function is called by the worker, the second is in the queue when the pool is
stopped, and the third is submitted after that. -/
def threeSubmitted (i : Fin n) : List (Event n Nat) :=
  .submit :: List.replicate 9 (.producer 0) ++ List.replicate 3 (.worker i true 7) ++
    .submit :: List.replicate 9 (.producer 1) ++ List.replicate 6 .stop ++ [.worker i true 8] ++
    List.replicate 3 .stop ++ [.submit, .runInPlace 0 9]

theorem futures_settled_stopped :
    ∃ s, (system 1 Nat).Run ClearsQuietly (started 1 Nat 1) (threeSubmitted 0) s ∧
      s.promises.map SharedPromise.value = [some 7, none, some 9] ∧ s.called.Nodup ∧
      ∀ p ∈ s.promises, p.value.isSome = true ∨ p.broken = true := by
  have hreplay : ((system 1 Nat).checked ClearsQuietly (started 1 Nat 1) (threeSubmitted 0)).any fun s =>
      decide (s.promises.map SharedPromise.value = [some 7, none, some 9] ∧ s.pool.stopAt = .returned ∧
        (∀ p ∈ s.pool.producers, p.isReturned = true) ∧ s.inPlace = []) := by decide +kernel
  obtain ⟨s, hrun, hlast⟩ := Stepper.Run.of_any hreplay
  obtain ⟨hvalues, hat, hproducers, hinPlace⟩ := of_decide_eq_true hlast
  obtain ⟨-, hnodup, -, -, -, hsettled⟩ := futures_settled hrun
  exact ⟨s, hrun, hvalues, hnodup, hsettled hat hproducers hinPlace⟩

end FuturePool
end Muduo
