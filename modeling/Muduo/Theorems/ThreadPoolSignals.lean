import Muduo.Theorems.ThreadPoolTasks

/-! # Signals of the thread pool

A worker looks into its own queue before it blocks, and whoever makes the queue non-empty owes it a signal: so no
worker sleeps on its own tasks. It may well sleep on the tasks of the others. -/

namespace Muduo
open Lib

def ProducerAt.inEnqueueSharded {n : Nat} {Task : Type} : ProducerAt n Task → Bool
  | .nextWorker _ | .push _ _ | .incrementQueued _ _ | .releaseSignal _ => true
  | _ => false

namespace ThreadPool
variable {n : Nat} {Task : Type} {s t : ThreadPool n Task} {i : Fin n}

/-- A worker with tasks is looking, has been signalled, or will be. -/
def Signalled (s : ThreadPool n Task) (i : Fin n) : Prop :=
  (s.workers i).queue = [] ∨ (∃ p ∈ s.producers, p.owesSignal i = true) ∨ 0 < (s.workers i).signal ∨
    (s.workerAt i).looksAtOwn = true

namespace Signalled

theorem worker {j : Fin n} (hs : Signalled s i) (hrunning : s.isRunning = true) (h : WorkerMoves s j t) :
    Signalled t i := by
  by_cases hij : i = j
  · subst hij
    cases h with
    | goes dest hown =>
      rcases hs with hempty | howes | hsignal | hlooks
      · exact .inl hempty
      · exact .inr (.inl howes)
      · exact .inr (.inr (.inl hsignal))
      · rcases hown hrunning hlooks with hdest | hempty
        · exact .inr (.inr (.inr (by simpa [goTo] using hdest)))
        · exact .inl hempty
    -- A worker that has taken a task looks again after it.
    | takes owner task rest hperm => exact .inr (.inr (.inr (by simp [take, goTo, WorkerAt.looksAtOwn])))
    | wakes signal hsignal => exact .inr (.inr (.inr (by simp [goTo, WorkerAt.looksAtOwn])))
  · cases h with
    | goes dest hown => simpa [Signalled, goTo, hij] using hs
    | takes owner task rest hperm =>
      by_cases howner : i = owner
      · subst howner
        rcases hs with hempty | hs
        · rw [hempty] at hperm
          exact absurd hperm.symm.eq_nil (List.cons_ne_nil _ _)
        · exact .inr (by simpa [take, goTo, setQueue, hij] using hs)
      · simpa [Signalled, take, goTo, setQueue, hij, howner] using hs
    | wakes signal hsignal => simpa [Signalled, goTo, setSignal, hij] using hs

theorem producer {p p' : ProducerAt n Task} {producers : List (ProducerAt n Task)} (hs : Signalled s i)
    (hreplaces : Replaces s.producers producers p p') (h : ProducerMoves s p p' t) :
    Signalled { t with producers := producers } i := by
  cases h with
  | goes p' waiting next queued hslot howes huses =>
    rcases hs with hempty | howed | hs
    · exact .inl hempty
    · exact .inr (.inl (hreplaces.exists_mem howed fun hp => (howes i).trans hp))
    · exact .inr (.inr hs)
  | acquires task free hp hfree =>
    subst hp
    rcases hs with hempty | howed | hs
    · exact .inl hempty
    · exact .inr (.inl (hreplaces.exists_mem howed fun hp => hp))
    · exact .inr (.inr hs)
  | releases hp =>
    subst hp
    rcases hs with hempty | howed | hs
    · exact .inl hempty
    · exact .inr (.inl (hreplaces.exists_mem howed fun hp => hp))
    · exact .inr (.inr hs)
  | pushes task j hp =>
    subst hp
    by_cases hij : i = j
    · subst hij
      -- The producer that finds the queue empty takes the signal on itself.
      rcases hs with hempty | howed | hs
      · exact .inr (.inl ⟨_, hreplaces.mem_new, by simp [ProducerAt.owesSignal, hempty]⟩)
      · exact .inr (.inl (hreplaces.exists_mem howed fun hp => by cases hp))
      · exact .inr (.inr (by simpa [pushTask, setQueue] using hs))
    · rcases hs with hempty | howed | hs
      · exact .inl (by simpa [pushTask, setQueue, hij] using hempty)
      · exact .inr (.inl (hreplaces.exists_mem howed fun hp => by cases hp))
      · exact .inr (.inr (by simpa [pushTask, setQueue, hij] using hs))
  | signals j hp =>
    subst hp
    by_cases hij : i = j
    · subst hij
      exact .inr (.inr (.inl (by simp [setSignal])))
    · rcases hs with hempty | howed | hs
      · exact .inl (by simpa [setSignal, hij] using hempty)
      · refine .inr (.inl (hreplaces.exists_mem howed ?_))
        intro hp
        exact absurd (of_decide_eq_true hp).symm hij
      · exact .inr (.inr (by simpa [setSignal, hij] using hs))

theorem moves (hs : Signalled s i) (hrunning : s.isRunning = true) (h : Moves s t) : Signalled t i := by
  cases h with
  | run task =>
    rcases hs with hempty | ⟨p, hp, howes⟩ | hs
    · exact .inl hempty
    · exact .inr (.inl ⟨p, List.mem_append_left _ hp, howes⟩)
    · exact .inr (.inr hs)
  | producer p p' t producers hreplaces hmoves => exact hs.producer hreplaces hmoves
  | worker j t hmoves => exact hs.worker hrunning hmoves

end Signalled

/-- Before `stop`, a worker that is blocked with its signal at zero has no task in its queue, or a producer that has
pushed onto it is about to signal it. -/
theorem blocked_without_tasks {maxQueueSize : Nat} {es : List (Event n Task)}
    (hrun : (system n Task).Run (fun _ _ => True) (started n Task maxQueueSize) es s) (hstop : s.stopAt = .notCalled)
    (hat : s.workerAt i = .acquire) (hsignal : (s.workers i).signal = 0) :
    (s.workers i).queue = [] ∨ ∃ p ∈ s.producers, p.owesSignal i = true := by
  have hs : Signalled s i := by
    refine before_stop (I := fun s => Signalled s i) ?_ (fun hs hrunning h => hs.moves hrunning h) hrun hstop
    exact .inl rfl
  rcases hs with hempty | howed | hpos | hlooks
  · exact .inl hempty
  · exact .inr howed
  · rw [hsignal] at hpos
    cases hpos
  · rw [hat] at hlooks
    cases hlooks

/-- The worker blocks between the push and the signal. -/
def pushedBeforeSignal (i : Fin n) : List (Event n Nat) :=
  List.replicate 3 (.worker i true) ++ .run 7 :: List.replicate 8 (.producer 0)

theorem blocked_before_signal :
    ∃ s, (system 1 Nat).Run (fun _ _ => True) (started 1 Nat 1) (pushedBeforeSignal 0) s ∧
      s.stopAt = .notCalled ∧ s.workerAt 0 = .acquire ∧ (s.workers 0).signal = 0 ∧ (s.workers 0).queue = [7] ∧
      ((s.workers 0).queue = [] ∨ ∃ p ∈ s.producers, p.owesSignal 0 = true) := by
  refine Stepper.Run.replay rfl ?_
  intro hrun
  exact ⟨rfl, rfl, rfl, rfl, blocked_without_tasks hrun rfl rfl rfl⟩

/-! ## Sleeping on the tasks of others -/

/-- A worker is blocked with its signal at zero, and another worker is busy and has tasks in its queue. -/
def IdleBesideTasks (s : ThreadPool n Task) : Prop :=
  ∃ i j, i ≠ j ∧ s.workerAt i = .acquire ∧ (s.workers i).signal = 0 ∧
    (∃ task, s.workerAt j = .running task) ∧ (s.workers j).queue ≠ []

abbrev Reaches (s t : ThreadPool n Task) : Prop := (system n Task).Reaches (fun _ _ => True) s t

section Reaches
variable {u : ThreadPool n Task} {task : Task} {p p' : ProducerAt n Task}

/-- One more thread is in `run`. -/
def awaiting (p : ProducerAt n Task) (s : ThreadPool n Task) : ThreadPool n Task :=
  { s with producers := s.producers ++ [p] }

/-- A producer does not look at the other producers. -/
theorem producer_awaiting (q : ProducerAt n Task) (h : s.producer p = some (p', t)) :
    (s.awaiting q).producer p = some (p', { t with producers := s.producers ++ [q] }) := by
  cases p with
  | run task =>
    simp only [producer] at h ⊢
    split at h
    · cases h
      exact if_pos ‹_›
    · refine (if_neg ‹_›).trans ?_
      split at h
      · cases h
        exact if_pos ‹_›
      · cases h
        exact if_neg ‹_›
  | testRunning task =>
    simp only [producer] at h ⊢
    split at h
    · cases h
      exact if_pos ‹_›
    · refine (if_neg ‹_›).trans ?_
      split at h
      · cases h
        exact if_pos ‹_›
      · cases h
        exact if_neg ‹_›
  | acquireSlot task =>
    simp only [producer, awaiting] at h ⊢
    split at h
    · cases h
      rfl
    · cases h
  | nextWorker task =>
    simp only [producer] at h ⊢
    split at h
    · cases h
      exact dif_pos ‹_›
    · cases h
      exact dif_neg ‹_›
  | returned => cases h
  | _ =>
    cases h
    rfl

theorem Reaches.producer (h : s.producer p = some (p', t)) (hproducers : t.producers = s.producers)
    (hrest : Reaches (t.awaiting p') u) : Reaches (s.awaiting p) u := by
  refine .head (e := .producer s.producers.length) trivial ?_ hrest
  have hp : (s.awaiting p).producers[s.producers.length]? = some p := by simp [awaiting]
  have hset : (s.awaiting p).producers.set s.producers.length p' = t.producers ++ [p'] := by simp [awaiting, hproducers]
  simp only [system, step, hp, producer_awaiting p h, Option.map_some, hset]
  rfl

/-- The pool after a call of `run` that has pushed onto an empty queue. -/
def enqueued (task : Task) (i : Fin n) (s : ThreadPool n Task) : ThreadPool n Task :=
  { (s.setQueue i [task]).setSignal i ((s.workers i).signal + 1) with
    producers := s.producers ++ [.returned]
    queueSlots := s.queueSlots.map (· - 1)
    nextWorker := s.nextWorker + 1
    queuedTasks := s.queuedTasks + 1
    pushed := task :: s.pushed }

theorem reaches_enqueueSharded (task : Task) (hi : s.nextWorker.toNat % n = i) (hempty : (s.workers i).queue = []) :
    Reaches (awaiting (.nextWorker task) { s with queueSlots := s.queueSlots.map (· - 1) }) (s.enqueued task i) := by
  have hnext : ∀ u : ThreadPool n Task, u.nextWorker = s.nextWorker →
      u.producer (.nextWorker task) = some (.push task i, { u with nextWorker := u.nextWorker + 1 }) := by
    intro u hu
    simp [producer, i.pos, hu, hi]
  have hpush : ∀ u : ThreadPool n Task, u.workers = s.workers →
      u.producer (.push task i) = some (.incrementQueued i true, { u.setQueue i [task] with pushed := task :: u.pushed }) := by
    intro u hu
    simp [producer, pushTask, hu, hempty]
  have hincrement : ∀ u : ThreadPool n Task,
      u.producer (.incrementQueued i true) = some (.releaseSignal i, { u with queuedTasks := u.queuedTasks + 1 }) :=
    fun _ => rfl
  have hsignal : ((s.setQueue i [task]).workers i).signal = (s.workers i).signal := by simp [setQueue]
  refine Reaches.producer (hnext _ rfl) rfl ?_
  refine Reaches.producer (hpush _ rfl) rfl ?_
  refine Reaches.producer (hincrement _) rfl ?_
  rw [enqueued, ← hsignal]
  exact Reaches.producer rfl rfl (.refl _)

/-- A producer that finds a slot pushes. -/
theorem reaches_enqueued (hrunning : s.isRunning = true) (hslots : s.queueSlots ≠ some 0)
    (hi : s.nextWorker.toNat % n = i) (hempty : (s.workers i).queue = []) : Reaches s (s.enqueued task i) := by
  have hrun : s.producer (.run task) = some (.testRunning task, s) := by simp [producer, hrunning, i.pos.ne']
  have hsharded := reaches_enqueueSharded task hi hempty
  refine .head (e := .run task) trivial rfl (Reaches.producer hrun rfl ?_)
  cases hq : s.queueSlots with
  | none =>
    have htest : s.producer (.testRunning task) = some (.nextWorker task, s) := by simp [producer, hrunning, hq]
    refine Reaches.producer htest rfl ?_
    rw [hq] at hsharded
    have hnone : { s with queueSlots := none } = s := by rw [← hq]
    rwa [Option.map_none, hnone] at hsharded
  | some slots =>
    cases slots with
    | zero => exact absurd hq hslots
    | succ free =>
      have htest : s.producer (.testRunning task) = some (.incrementWaiting task, s) := by
        simp [producer, hrunning, hq]
      have hacquire : ∀ u : ThreadPool n Task, u.queueSlots = some (free + 1) →
          u.producer (.acquireSlot task) = some (.decrementWaiting task, { u with queueSlots := some free }) := by
        intro u hsome
        simp [producer, hsome]
      have hretest : ∀ u : ThreadPool n Task, u.isRunning = true →
          u.producer (.retestRunning task) = some (.nextWorker task, u) := by
        intro u hu
        simp [producer, hu]
      refine Reaches.producer htest rfl ?_
      refine Reaches.producer rfl rfl ?_
      refine Reaches.producer (hacquire _ hq) rfl ?_
      refine Reaches.producer rfl rfl ?_
      refine Reaches.producer (hretest _ hrunning) rfl ?_
      rw [hq] at hsharded
      simpa using hsharded

theorem Reaches.worker (h : s.worker i true = some t) (hrest : Reaches t u) : Reaches s u :=
  .head (e := .worker i true) trivial h hrest

@[simp] theorem workerAt_goTo (dest : WorkerAt Task) : (s.goTo i dest).workerAt i = dest := by
  simp [goTo]

@[simp] theorem goTo_goTo (first second : WorkerAt Task) : (s.goTo i first).goTo i second = s.goTo i second := by
  simp [goTo]

@[simp] theorem setSignal_goTo (dest : WorkerAt Task) (signal : Nat) :
    (s.goTo i dest).setSignal i signal = (s.setSignal i signal).goTo i dest := rfl

@[simp] theorem take_goTo (dest : WorkerAt Task) (owner : Fin n) (rest : List Task) :
    (s.goTo i dest).take i owner task rest = s.take i owner task rest := by
  simp [take, setQueue, goTo]

/-- A worker that finds its own queue empty looks at the count of all tasks. -/
theorem reaches_testQueued (hrunning : s.isRunning = true) (hat : s.workerAt i = .testRunning)
    (hempty : (s.workers i).queue = []) : Reaches s (s.goTo i .testQueued) := by
  have htest : s.worker i true = some (s.goTo i .popOwn) := by simp [ThreadPool.worker, hat, hrunning]
  have hpop : (s.goTo i .popOwn).worker i true = some (s.goTo i .testQueued) := by
    have hown : ((s.goTo i .popOwn).workers i).queue = [] := hempty
    simp [ThreadPool.worker, popOwn, hown]
  exact Reaches.worker htest (Reaches.worker hpop (.refl _))

/-- With nothing queued a worker goes to wait for its signal. -/
theorem reaches_acquire (hrunning : s.isRunning = true) (hat : s.workerAt i = .testRunning)
    (hempty : (s.workers i).queue = []) (hqueued : s.queuedTasks = 0) : Reaches s (s.goTo i .acquire) := by
  have htest : (s.goTo i .testQueued).worker i true = some (s.goTo i .acquire) := by
    have hnone : (s.goTo i .testQueued).queuedTasks = 0 := hqueued
    simp [ThreadPool.worker, hnone]
  exact (reaches_testQueued hrunning hat hempty).trans (Reaches.worker htest (.refl _))

/-- The loop over the victims passes those with empty queues. -/
theorem reaches_steal {k m : Nat} (hat : s.workerAt i = .steal k) (hkm : k ≤ m) (hm : m ≤ n)
    (hempty : ∀ l, k ≤ l → l < m → (s.workers (victim i l)).queue = []) : Reaches s (s.goTo i (.steal m)) := by
  induction m, hkm using Nat.le_induction with
  | base =>
    have hsame : s.goTo i (.steal k) = s := by rw [goTo, ← hat, Function.update_eq_self]
    rw [hsame]
    exact .refl _
  | succ m hkm ih =>
    have hnext : (s.goTo i (.steal m)).worker i true = some (s.goTo i (.steal (m + 1))) := by
      have hvictim : ((s.goTo i (.steal m)).workers (victim i m)).queue = [] := hempty m hkm (Nat.lt_succ_self m)
      have hmn : m < n := hm
      simp [ThreadPool.worker, steal, hmn, hvictim]
    have hpassed := ih (Nat.le_of_succ_le hm) fun l hkl hlm => hempty l hkl (Nat.lt_succ_of_lt hlm)
    exact hpassed.trans (Reaches.worker hnext (.refl _))

/-- A worker steals the only task there is. -/
theorem reaches_stolen {k : Nat} (hrunning : s.isRunning = true) (hat : s.workerAt i = .testRunning)
    (hempty : (s.workers i).queue = []) (hqueued : s.queuedTasks ≠ 0) (hk : 1 ≤ k) (hkn : k < n)
    (hvictims : ∀ l, 1 ≤ l → l < k → (s.workers (victim i l)).queue = [])
    (hvictim : (s.workers (victim i k)).queue = [task]) : Reaches s (s.take i (victim i k) task []) := by
  have htest : (s.goTo i .testQueued).worker i true = some (s.goTo i (.steal 1)) := by
    have hsome : (s.goTo i .testQueued).queuedTasks ≠ 0 := hqueued
    simp [ThreadPool.worker, hsome]
  have htake : (s.goTo i (.steal k)).worker i true = some (s.take i (victim i k) task []) := by
    have hqueue : ((s.goTo i (.steal k)).workers (victim i k)).queue = [task] := hvictim
    simp [ThreadPool.worker, steal, hkn, hqueue]
  have hscan : Reaches (s.goTo i (.steal 1)) ((s.goTo i (.steal 1)).goTo i (.steal k)) :=
    reaches_steal (workerAt_goTo _) hk hkn.le hvictims
  rw [goTo_goTo] at hscan
  exact (reaches_testQueued hrunning hat hempty).trans
    (Reaches.worker htest (hscan.trans (Reaches.worker htake (.refl _))))

end Reaches

section Idle
variable {m maxQueueSize : Nat}

/-- The first task was pushed to worker 0, and worker 1 has stolen it. -/
def stolenFirst (m maxQueueSize : Nat) (first : Task) : ThreadPool (m + 2) Task :=
  ((started (m + 2) Task maxQueueSize).enqueued first 0).take 1 0 first []

theorem reaches_stolenFirst (first : Task) :
    Reaches (started (m + 2) Task maxQueueSize) (stolenFirst m maxQueueSize first) := by
  have henqueued : Reaches (started (m + 2) Task maxQueueSize) ((started (m + 2) Task maxQueueSize).enqueued first 0) := by
    refine reaches_enqueued rfl ?_ (Nat.zero_mod _) rfl
    unfold started
    split <;> simp
    omega
  have hvictim : victim 1 (m + 1) = (0 : Fin (m + 2)) := by
    simp [victim, Nat.add_comm 1]
  have hother : ∀ l, l < m + 1 → victim 1 l ≠ (0 : Fin (m + 2)) := by
    intro l hl hzero
    have hmod : (1 + l) % (m + 2) = 0 := by simpa [victim, Fin.ext_iff] using hzero
    rw [Nat.mod_eq_of_lt (by omega)] at hmod
    omega
  refine henqueued.trans ?_
  rw [stolenFirst, ← hvictim]
  refine reaches_stolen rfl rfl ?_ ?_ (by omega) (by omega) ?_ ?_
  · simp [enqueued, started, setQueue, setSignal, hvictim]
  · simp [enqueued, started]
  · intro l _ hl
    simp [enqueued, started, setQueue, setSignal, hvictim, hother l hl]
  · simp [enqueued, started, setQueue, setSignal, hvictim]

theorem workers_stolenFirst (first : Task) :
    (stolenFirst m maxQueueSize first).workers = Function.update (fun _ => {}) 0 { signal := 1 } := by
  simp [stolenFirst, enqueued, started, take, goTo, setQueue, setSignal]

theorem queuedTasks_stolenFirst (first : Task) : (stolenFirst m maxQueueSize first).queuedTasks = 0 := by
  change (0 + 1 - 1 : UInt64) = 0
  rfl

/-- Worker 0 has used up the signal for the first task and sleeps. -/
def asleep (m maxQueueSize : Nat) (first : Task) : ThreadPool (m + 2) Task :=
  ((stolenFirst m maxQueueSize first).setSignal 0 0).goTo 0 .acquire

theorem workers_asleep (first : Task) : (asleep m maxQueueSize first).workers = fun _ => {} := by
  simp [asleep, goTo, setSignal, workers_stolenFirst]

theorem reaches_asleep (first : Task) : Reaches (stolenFirst m maxQueueSize first) (asleep m maxQueueSize first) := by
  have hwake : ((stolenFirst m maxQueueSize first).goTo 0 .acquire).worker 0 true =
      some (((stolenFirst m maxQueueSize first).setSignal 0 0).goTo 0 .testRunning) := by
    have hsignal : (((stolenFirst m maxQueueSize first).goTo 0 .acquire).workers 0).signal = 1 := by
      simp [goTo, workers_stolenFirst]
    simp [worker, hsignal]
  have hagain : Reaches (((stolenFirst m maxQueueSize first).setSignal 0 0).goTo 0 .testRunning)
      ((((stolenFirst m maxQueueSize first).setSignal 0 0).goTo 0 .testRunning).goTo 0 .acquire) := by
    refine reaches_acquire rfl (workerAt_goTo _) ?_ (queuedTasks_stolenFirst first)
    simp [goTo, setSignal, workers_stolenFirst]
  rw [goTo_goTo] at hagain
  refine (reaches_acquire (i := 0) rfl rfl ?_ (queuedTasks_stolenFirst first)).trans (Reaches.worker hwake hagain)
  simp [workers_stolenFirst]

/-- The second task is pushed to worker 1, which is busy, while worker 0 sleeps. -/
theorem reaches_idleBesideTasks (m maxQueueSize : Nat) (first second : Task) :
    ∃ s, Reaches (started (m + 2) Task maxQueueSize) s ∧ s.stopAt = .notCalled ∧
      s.producers = [.returned, .returned] ∧ IdleBesideTasks s := by
  have hsecond : Reaches (asleep m maxQueueSize first) ((asleep m maxQueueSize first).enqueued second 1) := by
    refine reaches_enqueued rfl ?_ ?_ ?_
    · simp [asleep, stolenFirst, take, goTo, setSignal]
    · have hnext : (asleep m maxQueueSize first).nextWorker.toNat = 1 := rfl
      rw [hnext]
      rfl
    · rw [workers_asleep]
  refine ⟨_, (reaches_stolenFirst first).trans ((reaches_asleep first).trans hsecond), rfl, rfl, 0, 1, ?_, rfl, ?_,
    ⟨first, rfl⟩, ?_⟩
  · simp
  · simp [enqueued, setQueue, setSignal, workers_asleep]
  · simp [enqueued, setQueue, setSignal, workers_asleep]

/-- Exactly a pool of at most one worker never lets a worker sleep beside the tasks of a busy one. -/
theorem work_conserving_iff (n : Nat) (Task : Type) [Inhabited Task] (maxQueueSize : Nat) :
    (∀ es s, (system n Task).Run (fun _ _ => True) (started n Task maxQueueSize) es s → s.stopAt = .notCalled →
      (∀ p ∈ s.producers, p.inEnqueueSharded = false) → ¬ IdleBesideTasks s) ↔ n ≤ 1 := by
  constructor
  · intro hconserving
    by_contra hn
    obtain ⟨m, rfl⟩ : ∃ m, n = m + 2 := ⟨n - 2, by omega⟩
    obtain ⟨s, ⟨es, hrun⟩, hstop, hproducers, hidle⟩ :=
      reaches_idleBesideTasks m maxQueueSize (default : Task) default
    refine hconserving es s hrun hstop ?_ hidle
    rw [hproducers]
    intro p hp
    simp only [List.mem_cons, List.not_mem_nil, or_false, or_self] at hp
    rw [hp]
    rfl
  · intro hn es s _ _ _ hidle
    obtain ⟨i, j, hij, -⟩ := hidle
    exact hij (Fin.ext (by omega))

/-- Two workers, no bound: worker 1 steals task 1 from worker 0, which consumes its signal and sleeps while task 2 is
pushed to worker 1. -/
def sleepsBesideTasks (idle busy : Fin n) : List (Event n Nat) :=
  .run 1 :: List.replicate 6 (.producer 0) ++ List.replicate 4 (.worker busy true) ++
    List.replicate 7 (.worker idle true) ++
    .run 2 :: List.replicate 6 (.producer 1)

theorem idle_beside_tasks :
    ∃ s, (system 2 Nat).Run (fun _ _ => True) (started 2 Nat 0) (sleepsBesideTasks 0 1) s ∧ s.stopAt = .notCalled ∧
      (∀ p ∈ s.producers, p.inEnqueueSharded = false) ∧ IdleBesideTasks s := by
  refine Stepper.Run.replay rfl ?_
  intro _
  refine ⟨rfl, ?_, 0, 1, Fin.zero_ne_one, rfl, rfl, ⟨1, rfl⟩, List.cons_ne_nil 2 []⟩
  refine List.forall_mem_cons.mpr ⟨rfl, List.forall_mem_cons.mpr ⟨rfl, ?_⟩⟩
  exact List.forall_mem_nil _

end Idle

end ThreadPool
end Muduo
