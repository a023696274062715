import Muduo.Lib.Permit
import Muduo.Theorems.ThreadPoolTasks

/-! # The signals as binary semaphores

The signal of a worker is a `std::binary_semaphore`, which may be released only while its counter is zero. A push
onto an empty queue leads to a release whatever the counter is, and so does `stop`, for every worker, once it has
cleared `running_`. -/

namespace Muduo

/-- `stop` has cleared `running_` and has still to release the signal of the worker. -/
def StopAt.owesSignal {n : Nat} (i : Fin n) : StopAt → Bool
  | .exchangeWaiting | .releaseSlots _ => true
  | .releaseSignal j => j ≤ i
  | .notCalled | .clearRunning | .join _ | .reset | .returned => false

namespace ThreadPool
open Lib
variable {n : Nat} {Task : Type} {s t : ThreadPool n Task} {i : Fin n} {e : Event n Task}

/-- The signal of a worker, with the threads that are about to release it. -/
def permit (i : Fin n) (s : ThreadPool n Task) : Permit where
  count := (s.workers i).signal
  owed := s.producers.countP (ProducerAt.owesSignal i) + (s.stopAt.owesSignal i).toNat

/-- The producer is about to push onto the queue of the worker, which is empty. -/
def pushesFirst (i : Fin n) (s : ThreadPool n Task) : ProducerAt n Task → Bool
  | .push _ j => j = i && (s.workers j).queue.isEmpty
  | _ => false

/-- The event decides to wake the worker: a push onto its empty queue, or the step of `stop` that clears
`running_`. -/
def wakes (i : Fin n) (s : ThreadPool n Task) : Event n Task → Bool
  | .producer k => s.producers[k]?.any (s.pushesFirst i)
  | .stop => s.stopAt = .clearRunning
  | .run _ | .worker _ _ => false

/-- The worker acquires its signal. -/
def acquires (i : Fin n) (s : ThreadPool n Task) : Event n Task → Bool
  | .worker j _ =>
    match s.workerAt j with
    | .acquire => j = i
    | _ => false
  | .run _ | .producer _ | .stop => false

/-- The worker whose signal an event releases. -/
def releases (s : ThreadPool n Task) : Event n Task → Option (Fin n)
  | .producer k =>
    match s.producers[k]? with
    | some (.releaseSignal i) => some i
    | _ => none
  | .stop =>
    match s.stopAt with
    | .releaseSignal i => if h : i < n then some ⟨i, h⟩ else none
    | _ => none
  | .run _ | .worker _ _ => none

/-- The system with a count, for each worker, of the decisions to wake it and of its acquires. -/
def tallied (n : Nat) (Task : Type) : Stepper (Tally (ThreadPool n Task) (Fin n)) (Event n Task) :=
  (system n Task).tallied wakes acquires

/-- It is decided to wake a worker only when the worker has acquired its signal once for each decision before. -/
def SignalTaken : Tally (ThreadPool n Task) (Fin n) → Event n Task → Prop := TakenFirst wakes

instance (c : Tally (ThreadPool n Task) (Fin n)) (e : Event n Task) : Decidable (SignalTaken c e) :=
  inferInstanceAs (Decidable (TakenFirst _ c e))

/-! ## What a step does to a signal -/

theorem signal_setSignal (i j : Fin n) (signal : Nat) :
    ((s.setSignal j signal).workers i).signal = if i = j then signal else (s.workers i).signal := by
  by_cases hij : i = j
  · subst hij
    simp [setSignal]
  · simp [setSignal, hij]

theorem signal_setQueue (i j : Fin n) (queue : List Task) :
    ((s.setQueue j queue).workers i).signal = (s.workers i).signal := by
  by_cases hij : i = j
  · subst hij
    simp [setQueue]
  · simp [setQueue, hij]

theorem permit_setSignal (i j : Fin n) (signal : Nat) :
    (permit i (s.setSignal j signal)).total + (if i = j then (s.workers j).signal else 0) =
      (s.permit i).total + (if i = j then signal else 0) := by
  simp only [permit, Permit.total, signal_setSignal]
  by_cases hij : i = j
  · subst hij
    simp only [setSignal, if_true]
    omega
  · simp only [setSignal, hij, if_false]

theorem permit_take (i j owner : Fin n) (task : Task) (rest : List Task) :
    permit i (s.take j owner task rest) = s.permit i := by
  have hi : ((s.take j owner task rest).workers i).signal = (s.workers i).signal := signal_setQueue i owner rest
  simp only [permit, hi]
  rfl

theorem permit_of_worker {j : Fin n} {locked : Bool} (h : s.worker j locked = some t) (i : Fin n) :
    (t.permit i).total + (s.acquires i (.worker j locked)).toNat ≤ (s.permit i).total := by
  cases hat : s.workerAt j with
  | acquire =>
    simp only [worker, hat] at h
    split at h
    · cases h
    · rename_i signal hsignal
      cases h
      have hi : (permit i ((s.setSignal j signal).goTo j .testRunning)).total + _ = _ := permit_setSignal i j signal
      simp only [acquires, hat]
      by_cases hij : i = j
      · simp only [hij, decide_true, Bool.toNat_true, if_true, hsignal] at hi ⊢
        omega
      · simp only [hij, if_false, decide_eq_false (Ne.symm hij), Bool.toNat_false] at hi ⊢
        omega
  | _ =>
    simp only [acquires, hat, Bool.toNat_false, Nat.add_zero]
    cases workerMoves_of_worker h with
    | goes dest hown => exact Nat.le_refl _
    | takes owner task rest hperm => exact Nat.le_of_eq (congrArg _ (permit_take i j owner task rest))
    | wakes signal hsignal hacquire => cases hat.symm.trans hacquire

theorem permit_le {wakes : Nat} (hsignal : (t.workers i).signal ≤ (s.workers i).signal)
    (hproducers : t.producers = s.producers) (howes : (t.stopAt.owesSignal i).toNat ≤ (s.stopAt.owesSignal i).toNat) :
    (t.permit i).total ≤ (s.permit i).total + wakes := by
  simp only [permit, Permit.total, hproducers]
  omega

theorem permit_of_stop (h : StopMoves s t) (i : Fin n) :
    (t.permit i).total ≤ (s.permit i).total + (s.wakes i .stop).toNat := by
  cases h with
  | tests =>
    refine permit_le (Nat.le_refl _) rfl ?_
    dsimp only
    split <;> exact Nat.zero_le _
  | clears hat =>
    simp only [permit, Permit.total, wakes, hat, decide_true, Bool.toNat_true]
    have howes := Bool.toNat_le (StopAt.owesSignal i (if s.queueSlots.isSome then .exchangeWaiting else .releaseSignal 0))
    omega
  | exchanges hat | frees _ hat =>
    refine permit_le (Nat.le_refl _) rfl ?_
    rw [hat]
    exact Bool.toNat_le _
  | signals j hj hat =>
    simp only [permit, Permit.total, signal_setSignal, hat, StopAt.owesSignal]
    by_cases hij : i = ⟨j, hj⟩
    · subst hij
      simp only [setSignal, if_true, decide_true, Bool.toNat_true, decide_eq_false (Nat.not_succ_le_self j),
        Nat.le_refl, Bool.toNat_false]
      omega
    · have hne : j ≠ i := fun heq => hij (Fin.ext heq.symm)
      have hlater : decide (j + 1 ≤ i) = decide (j ≤ i) := decide_eq_decide.mpr ⟨by omega, by omega⟩
      simp only [setSignal, hij, if_false, hlater]
      exact Nat.le_add_right _ _
  | signalled | joins | joined => exact permit_le (Nat.le_refl _) rfl (Nat.zero_le _)
  | resets => exact permit_le (Nat.zero_le _) rfl (Nat.zero_le _)

theorem permit_of_producer {p p' : ProducerAt n Task} {producers : List (ProducerAt n Task)}
    (hreplaces : Replaces s.producers producers p p') (h : ProducerMoves s p p' t) (i : Fin n) :
    (permit i { t with producers := producers }).total ≤ (s.permit i).total + (s.pushesFirst i p).toNat := by
  have hcount := hreplaces.countP (ProducerAt.owesSignal i)
  cases h with
  | goes p' waiting next queued hslot howes huses =>
    rw [howes i] at hcount
    simp only [permit, Permit.total, Nat.add_right_cancel hcount]
    exact Nat.le_add_right _ _
  | acquires task free hp hfree =>
    subst hp
    have hcount : producers.countP _ = s.producers.countP _ := hcount
    simp only [permit, Permit.total, hcount]
    exact Nat.le_add_right _ _
  | releases hp =>
    subst hp
    have hcount : producers.countP _ = s.producers.countP _ := hcount
    simp only [permit, Permit.total, hcount]
    exact Nat.le_add_right _ _
  | pushes task j hp =>
    subst hp
    have hsignal : ((s.pushTask task j).workers i).signal = (s.workers i).signal := signal_setQueue i j _
    have hstop : (s.pushTask task j).stopAt = s.stopAt := rfl
    -- the release that the producer has now taken on itself
    have hcount : producers.countP _ = s.producers.countP _ + if s.pushesFirst i (.push task j) = true then 1 else 0 := hcount
    simp only [permit, Permit.total, hsignal, hstop, hcount]
    cases s.pushesFirst i (.push task j) with
    | false => exact Nat.le_refl _
    | true =>
      simp only [if_true, Bool.toNat_true]
      omega
  | signals j hp =>
    subst hp
    have hi := permit_setSignal (s := s) i j ((s.workers j).signal + 1)
    simp only [permit, Permit.total] at hi ⊢
    have hproducers : (s.setSignal j ((s.workers j).signal + 1)).producers = s.producers := rfl
    rw [hproducers] at hi
    by_cases hij : i = j
    · subst hij
      simp [ProducerAt.owesSignal] at hcount
      simp only [if_true] at hi
      omega
    · simp [ProducerAt.owesSignal, Ne.symm hij] at hcount
      simp only [hij, if_false] at hi
      omega

theorem permit_of_step (hn : HasWorkers s) (h : s.step e = some t) (i : Fin n) :
    (t.permit i).total + (s.acquires i e).toNat ≤ (s.permit i).total + (s.wakes i e).toNat := by
  cases e with
  | run task =>
    cases h
    refine Nat.le_of_eq ?_
    simp [permit, Permit.total, ProducerAt.owesSignal, acquires, wakes]
  | producer k =>
    obtain ⟨p, p', u, hp, hproducer, rfl⟩ := producer_of_step h
    have hmoves := producerMoves_of_producer (hn p (List.mem_of_getElem? hp)) hproducer
    have hwakes : s.wakes i (.producer k) = s.pushesFirst i p := by
      rw [wakes, hp, Option.any_some]
    rw [hwakes]
    exact permit_of_producer (replaces_set hp p') hmoves i
  | worker j locked => exact permit_of_worker h i
  | stop => exact permit_of_stop (stopMoves_of_stop h) i

theorem owed_of_releases (h : s.releases e = some i) : 0 < (s.permit i).owed := by
  cases e with
  | run task => cases h
  | worker j locked => cases h
  | producer k =>
    simp only [releases] at h
    split at h
    · rename_i j hp
      cases h
      have hpos : 0 < s.producers.countP (ProducerAt.owesSignal i) :=
        List.countP_pos_iff.mpr ⟨_, List.mem_of_getElem? hp, decide_eq_true rfl⟩
      exact Nat.lt_of_lt_of_le hpos (Nat.le_add_right _ _)
    · cases h
  | stop =>
    simp only [releases] at h
    split at h
    · rename_i j hat
      split at h
      · cases h
        simp [permit, hat, StopAt.owesSignal]
      · cases h
    · cases h

/-! ## Runs -/

/-- If it is decided to wake a worker only after the worker has acquired its signal for the decisions before, each
release finds the counter of its signal at zero, and no counter exceeds one. -/
theorem signals_binary {maxQueueSize : Nat} {es : List (Event n Task)} {c : Tally (ThreadPool n Task) (Fin n)}
    (hrun : (tallied n Task).Run SignalTaken { state := started n Task maxQueueSize } es c) :
    (∀ i, (c.state.workers i).signal ≤ 1) ∧ ∀ e i, c.state.releases e = some i → (c.state.workers i).signal = 0 := by
  have hbalanced : c.Balanced permit := by
    refine .run HasWorkers.step permit_of_step hrun ?_ fun _ => ⟨Nat.zero_le _, Nat.zero_le _⟩
    intro p hp
    cases hp
  refine ⟨fun i => Permit.count_le (hbalanced.total_le i), ?_⟩
  intro e i hrelease
  exact Permit.count_of_owed (hbalanced.total_le i) (owed_of_releases hrelease)

/-- The worker sleeps, a task is pushed to it, and it is about to run it when `stop` is called. -/
def stoppedAfterTask {n : Nat} (i : Fin n) : List (Event n Nat) :=
  List.replicate 3 (.worker i true) ++ .run 7 :: List.replicate 6 (.producer 0) ++ List.replicate 3 (.worker i true) ++
    List.replicate 2 .stop

theorem stoppedAfterTask_binary :
    ∃ c, (tallied 1 Nat).Run SignalTaken { state := started 1 Nat 0 } (stoppedAfterTask 0) c ∧
      c.decided 0 = 2 ∧ c.taken 0 = 1 ∧ c.state.releases .stop = some 0 ∧ (c.state.workers 0).signal = 0 ∧
      ∀ i, (c.state.workers i).signal ≤ 1 := by
  refine Stepper.Run.replay rfl ?_
  intro hrun
  have hbinary := signals_binary hrun
  exact ⟨rfl, rfl, rfl, hbinary.2 .stop 0 rfl, hbinary.1⟩

/-- The worker takes the first task without its signal, and the second one finds the queue empty again. -/
def signalLeft {n : Nat} (i : Fin n) : List (Event n Nat) :=
  .run 7 :: List.replicate 6 (.producer 0) ++ List.replicate 2 (.worker i true) ++ .run 8 :: List.replicate 5 (.producer 1)

theorem signal_released_twice :
    ∃ s, (system 1 Nat).Run (fun _ _ => True) (started 1 Nat 0) (signalLeft 0) s ∧
      s.releases (.producer 1) = some 0 ∧ (s.workers 0).signal = 1 ∧
      ∃ t, s.step (.producer 1) = some t ∧ (t.workers 0).signal = 2 := by
  refine Stepper.Run.replay rfl ?_
  intro _
  exact ⟨rfl, rfl, _, rfl, rfl⟩

end ThreadPool
end Muduo
