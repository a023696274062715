import Muduo.BlockingQueue
import Muduo.Lib.MonitorBalance

/-! # The blocking queue hands out each element once

Every element that a call brings is at each point in a call that has not got the mutex yet, in the queue, or in the
result of one call; the order is kept. A consumer does not wait while there is an element for it, and a consumer with a
stop token does not wait after a stop. -/

namespace Muduo
open Lib

namespace BlockingQueue
variable {α : Type} {q q' : BlockingQueue α}

/-- The calls that may wait for an element. -/
def consumes : Call α → Bool
  | .take => true
  | .takeUntilStop _ => true
  | _ => false

/-- The elements that a call brings. -/
def brings : Call α → Multiset α
  | .put x => {x}
  | .emplace x => {x}
  | _ => 0

/-- The elements that a call returns. -/
def returns : Result α → Multiset α
  | .taken (some x) => {x}
  | .drained xs => xs
  | _ => 0

/-- What a call that leaves has done with the queue. -/
inductive Effect (q : BlockingQueue α) : Call α → Result α → BlockingQueue α → Option Cond → Prop
  | put {o} (x : α) (hbrings : brings o = {x}) (ho : consumes o = false) : Effect q o .unit (q.emplaceBack x) (some .notEmpty)
  | took {o front rest} (hqueue : q.queue = front :: rest) (hbrings : brings o = 0) :
      Effect q o (.taken (some front)) (q.popFront front rest) none
  | drained {o} (hbrings : brings o = 0) :
      Effect q o (.drained q.queue) { q with queue := [], allTaken := q.allTaken ++ q.queue } none
  | nothing {o r} (hbrings : brings o = 0) (hreturns : returns r = 0) (ho : consumes o → q.queue = []) : Effect q o r q none

/-- A call waits for an element when there is none, unless a stop is requested. -/
structure Waits (q : BlockingQueue α) (o : Call α) (c : Cond) : Prop where
  consumes : consumes o
  queue : q.queue = []
  stop : ∀ source, o = .takeUntilStop source → source ∉ q.stopRequested

theorem tryTake_meets (o : Call α) (hbrings : brings o = 0) : (tryTake q).Meets (Waits q o) (Effect q o) := by
  unfold tryTake
  split
  · rename_i hqueue
    exact .nothing hbrings rfl fun _ => hqueue
  · rename_i hqueue
    exact .took hqueue hbrings

theorem attempt_meets (o : Call α) (q : BlockingQueue α) : (attempt o q).Meets (Waits q o) (Effect q o) := by
  cases o with
  | put x => exact .put x rfl rfl
  | emplace x => exact .put x rfl rfl
  | take =>
    rw [attempt, take]
    split
    · rename_i hqueue
      refine ⟨rfl, hqueue, fun source heq => ?_⟩
      cases heq
    · rename_i hqueue
      exact .took hqueue rfl
  | takeUntilStop source =>
    rw [attempt, takeUntilStop]
    split
    · exact tryTake_meets _ rfl
    · rename_i hgo
      simp only [Bool.or_eq_true, not_or, Bool.not_eq_true', Bool.not_eq_false, List.isEmpty_iff,
        decide_eq_true_eq] at hgo
      refine ⟨rfl, hgo.1, fun source' heq => ?_⟩
      cases heq
      exact hgo.2
  | tryTake => exact tryTake_meets _ rfl
  | drain => exact .drained rfl
  | size | empty =>
    refine .nothing rfl rfl fun ho => ?_
    cases ho

/-- The elements go from the calls to the queue and from there to the results. -/
theorem balance : (monitor α).Balance brings (fun q => (q.queue : Multiset α)) returns where
  left {q o q' r} h := by
    obtain ⟨d, heffect⟩ := (attempt_meets o q).of_outcome h
    cases heffect with
    | put x hbrings ho =>
      have hunit : returns (.unit : Result α) = 0 := rfl
      rw [hbrings, hunit, add_zero]
      exact (Multiset.coe_add q.queue [x]).symm
    | took hqueue hbrings =>
      rw [hbrings, hqueue, add_zero, returns, add_comm]
      rfl
    | drained hbrings =>
      rw [hbrings, add_zero, returns]
      exact zero_add _
    | nothing hbrings hreturns _ => rw [hbrings, hreturns]
  external := rfl

/-- A consumer can go on for each element. -/
theorem demand : (monitor α).Demand .notEmpty (fun q => q.queue.length) consumes where
  wait {q o d} h := by
    have hwaits := (attempt_meets o q).of_wait h
    exact ⟨fun _ => hwaits.consumes, fun _ => List.length_eq_zero_iff.mpr hwaits.queue⟩
  left {q o q' d} h := by
    obtain ⟨r, heffect⟩ := (attempt_meets o q).of_left h
    cases heffect with
    | put x _ ho =>
      rw [ho]
      exact .inr (List.length_append.le)
    | @took front rest hqueue _ =>
      rw [hqueue]
      exact .inr (Nat.add_le_add_left (Bool.toNat_le _) rest.length)
    | drained _ => exact .inl rfl
    | nothing _ _ ho =>
      cases hconsumes : consumes o with
      | false => exact .inr le_rfl
      | true => exact .inl (List.length_eq_zero_iff.mpr (ho hconsumes))
  external := le_rfl

/-- The queue holds what was put and not taken. -/
theorem fifo_of_left {o : Call α} {d : Option Cond} (h : q.allTaken ++ q.queue = q.allPut)
    (hleft : (attempt o q).left = some (q', d)) : q'.allTaken ++ q'.queue = q'.allPut := by
  obtain ⟨r, heffect⟩ := (attempt_meets o q).of_left hleft
  cases heffect with
  | put x => simp only [emplaceBack, ← h, List.append_assoc]
  | took hqueue =>
    rw [hqueue, List.append_cons] at h
    exact h
  | drained => exact (List.append_nil _).trans h
  | nothing => exact h

theorem stopRequested_of_left {o : Call α} {d : Option Cond} {source : Nat} (h : source ∈ q.stopRequested)
    (hleft : (attempt o q).left = some (q', d)) : source ∈ q'.stopRequested := by
  obtain ⟨r, heffect⟩ := (attempt_meets o q).of_left hleft
  cases heffect <;> exact h

theorem not_wait_of_stop {source : Nat} {c : Cond} (h : source ∈ q.stopRequested) :
    attempt (.takeUntilStop source) q ≠ .wait c :=
  fun hwait => ((attempt_meets _ q).of_wait hwait).stop source rfl h

/-- After a stop request whose callback has notified the waiters, no consumer with the token waits. -/
theorem not_waiting_after_stop {q : BlockingQueue α} {es before between after : List (Monitor.Event Cond (Call α) Nat)}
    {source : Nat} {s : Monitor.State (BlockingQueue α) Cond (Call α) (Result α)}
    (run : (monitor α).stepper.Run (fun _ _ => True) ⟨q, []⟩ es s)
    (hes : es = before ++ .external source :: (between ++ .notifyAll .notEmpty :: after)) (c : Cond) :
    .waiting (.takeUntilStop source) c ∉ s.calls := by
  rw [hes] at run
  obtain ⟨u, -, hstop⟩ := run.split
  cases hstop with
  | cons _ hrequest hrest =>
    cases hrequest
    obtain ⟨v, hbetween, hnotify⟩ := hrest.split
    have hstopped : source ∈ v.shared.stopRequested :=
      Monitor.shared_invariant (m := monitor α) (fun h hleft => stopRequested_of_left h hleft)
        (fun h => List.mem_cons_of_mem _ h) List.mem_cons_self hbetween
    cases hnotify with
    | cons _ hall hafter =>
      cases hall
      refine Monitor.not_waiting_of_run (P := fun q => source ∈ q.stopRequested)
        (fun h hleft => stopRequested_of_left h hleft) (fun h => List.mem_cons_of_mem _ h) (fun h => not_wait_of_stop h)
        hafter hstopped (fun d => ?_) c
      cases d
      exact Monitor.not_waiting_notifyAll _ _ _

/-- For every interleaving of any number of calls: the elements of all calls are those that are still to be put, those in
the queue, and those that were returned, each once, and they leave the queue in the order in which they came. It does not
happen that no call can go on and one waits while there is an element, and no `take` waits once a stop is requested on
its token and the waiters are notified. -/
theorem elements_handed_out_once {es : List (Monitor.Event Cond (Call α) Nat)}
    {s : Monitor.State (BlockingQueue α) Cond (Call α) (Result α)}
    (run : (monitor α).stepper.Run (fun _ _ => True) ⟨{}, []⟩ es s) :
    (es.map (·.brings brings)).sum =
        (s.calls.map (·.brings brings)).sum + s.shared.queue + (s.calls.map (·.given returns)).sum ∧
      s.shared.allTaken ++ s.shared.queue = s.shared.allPut ∧
      ((∀ p ∈ s.calls, p.blockedOrFinished) → ∀ o c, .waiting o c ∈ s.calls → s.shared.queue = []) ∧
      ∀ source before between after,
        es = before ++ .external source :: (between ++ .notifyAll .notEmpty :: after) →
          ∀ c, .waiting (.takeUntilStop source) c ∉ s.calls := by
  refine ⟨?_, ?_, ?_, fun source before between after hes => not_waiting_after_stop run hes⟩
  · have hbalance := balance.run run
    rw [← hbalance]
    exact (zero_add _).symm
  · exact Monitor.shared_invariant (m := monitor α) (I := fun q => q.allTaken ++ q.queue = q.allPut)
      (fun h hleft => fifo_of_left h hleft) (fun h => h) rfl run
  · intro hblocked o c ho
    cases c
    exact List.length_eq_zero_iff.mp ((demand.covered run).eq_zero_of_blocked ho hblocked)

/-- Two consumers wait, one with a token. One of two elements wakes up the first, but a third call drains the queue; the
stop lets the second go. -/
def drainedBetween : List (Monitor.Event Cond (Call Nat) Nat) :=
  [.call .take, .enter 0 none, .call (.takeUntilStop 5), .enter 1 none, .call (.put 7), .enter 2 none,
    .call (.emplace 8), .enter 3 none, .notify 2 (some 0), .call .drain, .enter 4 none, .enter 0 none,
    .notify 3 (some 0), .enter 0 none, .external 5, .notifyAll .notEmpty, .enter 1 none,
    .enter 0 none]

theorem elements_handed_out_once_drained :
    ∃ s, (monitor Nat).stepper.Run (fun _ _ => True) ⟨{}, []⟩ drainedBetween s ∧
      .returned (.drained [7, 8]) ∈ s.calls ∧ (s.calls.map (·.given returns)).sum = {7, 8} ∧
      .waiting (.takeUntilStop 5) .notEmpty ∉ s.calls := by
  have hreplay : ((monitor Nat).stepper.checked (fun _ _ => True) ⟨{}, []⟩ drainedBetween).any (fun s =>
      s.shared.queue = [] ∧ s.calls = [.waiting .take .notEmpty, .returned (.taken none), .returned .unit,
        .returned .unit, .returned (.drained [7, 8])]) = true := by decide
  obtain ⟨s, run, htest⟩ := Stepper.Run.of_any hreplay
  obtain ⟨hqueue, hcalls⟩ := of_decide_eq_true htest
  obtain ⟨hsum, -, -, hstop⟩ := elements_handed_out_once run
  have hpending : (s.calls.map (·.brings brings)).sum = 0 := by
    rw [hcalls]
    rfl
  rw [hpending, hqueue, zero_add] at hsum
  refine ⟨s, run, ?_, ?_, hstop 5 (drainedBetween.take 14) [] [.enter 1 none, .enter 0 none] rfl .notEmpty⟩
  · rw [hcalls]
    decide
  · exact (zero_add _).symm.trans hsum.symm

end BlockingQueue
end Muduo
