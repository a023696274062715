import Muduo.BoundedBlockingQueue
import Muduo.Lib.MonitorBalance

/-! # The bounded blocking queue loses nothing

Every element that a call brings is put, and every element that is taken is the result of a call. The elements are taken
in the order in which they were put, and there are never too many. A wakeup is not lost: there is room for consumers as
there are elements, and for producers as there are free slots, and the calls make room only together with a
notification. -/

namespace Muduo
open Lib

namespace BoundedBlockingQueue
variable {α : Type} {q q' : BoundedBlockingQueue α}

/-- The calls that take an element and may wait for it. -/
def consumes : QueueCall α → Bool
  | .take => true
  | .takeUntilStop _ => true
  | _ => false

def produces : QueueCall α → Bool
  | .put _ => true
  | .emplace _ => true
  | _ => false

/-- The elements that a call brings. -/
def brings : QueueCall α → Multiset α
  | .put x => {x}
  | .emplace x => {x}
  | _ => 0

/-- The elements that a call returns. -/
def returns : Option α → Multiset α
  | some x => {x}
  | none => 0

/-- What a call that leaves has done with the queue, and what it returns. -/
inductive Effect (q : BoundedBlockingQueue α) :
    QueueCall α → Option α → BoundedBlockingQueue α → Option QueueCond → Prop
  | put {o} (x : α) (hroom : q.size < q.maxSize) (hbrings : brings o = {x}) (ho : produces o) (ho' : consumes o = false) :
      Effect q o none (q.pushBack x) (some .notEmpty)
  | took {o front rest} (hqueue : q.queue = front :: rest) (hbrings : brings o = 0) (ho : produces o = false) :
      Effect q o (some front) (q.popFront front rest) (some .notFull)
  | nothing {o} (hqueue : q.queue = []) (hbrings : brings o = 0) (ho : produces o = false) : Effect q o none q none

/-- A call waits for what is not there. -/
inductive Waits (q : BoundedBlockingQueue α) : QueueCall α → QueueCond → Prop
  | notEmpty {o} (ho : consumes o) (ho' : produces o = false) (hqueue : q.queue = []) : Waits q o .notEmpty
  | notFull {o} (ho : produces o) (ho' : consumes o = false) (hfull : q.maxSize ≤ q.size) : Waits q o .notFull

theorem put_meets (o : QueueCall α) (x : α) (hbrings : brings o = {x}) (ho : produces o) (ho' : consumes o = false) :
    (put x q).Meets (Waits q o) (Effect q o) := by
  unfold put
  split
  · rename_i hroom
    exact .put x hroom hbrings ho ho'
  · rename_i hfull
    exact .notFull ho ho' (Nat.le_of_not_lt hfull)

theorem attempt_meets (o : QueueCall α) (q : BoundedBlockingQueue α) : (attempt o q).Meets (Waits q o) (Effect q o) := by
  cases o with
  | put x => exact put_meets _ x rfl rfl rfl
  | emplace x => exact put_meets _ x rfl rfl rfl
  | take =>
    rw [attempt, take]
    split
    · rename_i hqueue
      exact .notEmpty rfl rfl hqueue
    · rename_i hqueue
      exact .took hqueue rfl rfl
  | takeUntilStop source =>
    rw [attempt, takeUntilStop]
    split
    · split
      · rename_i hqueue
        exact .nothing hqueue rfl rfl
      · rename_i hqueue
        exact .took hqueue rfl rfl
    · rename_i hgo
      simp only [empty, Bool.or_eq_true, not_or, Bool.not_eq_true', Bool.not_eq_false, List.isEmpty_iff] at hgo
      exact .notEmpty rfl rfl hgo.1
  | tryTake =>
    rw [attempt, tryTake]
    split
    · rename_i hqueue
      exact .nothing hqueue rfl rfl
    · rename_i hqueue
      exact .took hqueue rfl rfl

theorem size_pushBack {x : α} : (q.pushBack x).size = q.size + 1 := List.length_append

theorem size_of_cons {front : α} {rest : List α} (h : q.queue = front :: rest) : q.size = rest.length + 1 :=
  congrArg List.length h

/-- A consumer can go on for each element. -/
theorem demand_notEmpty : (monitor α).Demand .notEmpty size consumes where
  wait h := by
    cases (attempt_meets _ _).of_wait h with
    | notEmpty ho _ hqueue => exact ⟨fun _ => ho, fun _ => List.length_eq_zero_iff.mpr hqueue⟩
    | notFull _ ho _ =>
      refine ⟨fun heq => ?_, fun ho' => ?_⟩
      · cases heq
      · rw [ho] at ho'
        cases ho'
  left h := by
    obtain ⟨r, heffect⟩ := (attempt_meets _ _).of_left h
    cases heffect with
    | put x _ _ _ ho =>
      rw [size_pushBack, ho]
      exact .inr le_rfl
    | took hqueue _ _ =>
      rw [size_of_cons hqueue]
      exact .inr (Nat.add_le_add_left (Bool.toNat_le _) _)
    | nothing hqueue _ _ => exact .inl (List.length_eq_zero_iff.mpr hqueue)
  external := le_rfl

/-- A producer can go on for each free slot. -/
theorem demand_notFull : (monitor α).Demand .notFull (fun q => q.maxSize - q.size) produces where
  wait h := by
    cases (attempt_meets _ _).of_wait h with
    | notEmpty _ ho _ =>
      refine ⟨fun heq => ?_, fun ho' => ?_⟩
      · cases heq
      · rw [ho] at ho'
        cases ho'
    | notFull ho _ hfull => exact ⟨fun _ => ho, fun _ => Nat.sub_eq_zero_of_le hfull⟩
  left {q _ _ _} h := by
    obtain ⟨r, heffect⟩ := (attempt_meets _ _).of_left h
    cases heffect with
    | put x hroom _ ho _ =>
      have hmax : (q.pushBack x).maxSize = q.maxSize := rfl
      rw [size_pushBack, hmax, ho, Bool.toNat_true]
      exact .inr (by omega)
    | @took front rest hqueue _ ho =>
      have hmax : (q.popFront front rest).maxSize = q.maxSize := rfl
      have hpop : (q.popFront front rest).size = rest.length := rfl
      rw [hmax, hpop, size_of_cons hqueue, ho, decide_eq_true rfl, Bool.toNat_true, Bool.toNat_false]
      exact .inr (by omega)
    | nothing _ _ ho =>
      rw [ho]
      exact .inr (Nat.le_add_right _ _)
  external := le_rfl

/-- What the calls bring is put. -/
theorem balance_put : (monitor α).Balance brings (fun q => (q.allPut : Multiset α)) (fun _ => 0) where
  left {q o q' r} h := by
    obtain ⟨d, heffect⟩ := (attempt_meets o q).of_outcome h
    cases heffect with
    | put x _ hbrings _ _ =>
      rw [hbrings, add_zero]
      exact (Multiset.coe_add q.allPut [x]).symm
    | took _ hbrings _ => rw [hbrings, add_zero, add_zero]; rfl
    | nothing _ hbrings _ => rw [hbrings]
  external := rfl

/-- What the calls bring is in the queue, or it is returned. -/
theorem balance_queue : (monitor α).Balance brings (fun q => (q.queue : Multiset α)) returns where
  left {q o q' r} h := by
    obtain ⟨d, heffect⟩ := (attempt_meets o q).of_outcome h
    cases heffect with
    | put x _ hbrings _ _ =>
      have hnone : returns (none : Option α) = 0 := rfl
      rw [hbrings, hnone, add_zero]
      exact (Multiset.coe_add q.queue [x]).symm
    | took hqueue hbrings _ =>
      rw [hbrings, hqueue, add_zero, returns, add_comm]
      rfl
    | nothing _ hbrings _ => rw [hbrings, returns]
  external := rfl

/-- The queue holds what was put and not taken, and not too much of it. -/
structure Inv (maxSize : Nat) (q : BoundedBlockingQueue α) : Prop where
  maxSize : q.maxSize = maxSize
  size : q.size ≤ q.maxSize
  fifo : q.allTaken ++ q.queue = q.allPut

theorem Inv.left {n : Nat} {o : QueueCall α} {d : Option QueueCond} (h : Inv n q)
    (hleft : (attempt o q).left = some (q', d)) : Inv n q' := by
  obtain ⟨r, heffect⟩ := (attempt_meets o q).of_left hleft
  cases heffect with
  | put x hroom _ _ _ =>
    refine ⟨h.maxSize, ?_, ?_⟩
    · rw [size_pushBack]
      exact hroom
    · simp only [pushBack, ← h.fifo, List.append_assoc]
  | took hqueue _ _ =>
    have hsize := h.size
    rw [size_of_cons hqueue] at hsize
    refine ⟨h.maxSize, Nat.le_of_succ_le hsize, ?_⟩
    have hfifo := h.fifo
    rw [hqueue, List.append_cons] at hfifo
    exact hfifo
  | nothing => exact h

theorem Inv.new {maxSize : Int} (h : new maxSize = .ok q) : Inv maxSize.toNat q := by
  simp only [BoundedBlockingQueue.new] at h
  split at h
  · cases h
  · cases h
    exact ⟨rfl, Nat.zero_le _, rfl⟩

theorem new_eq {maxSize : Int} (h : new maxSize = .ok q) : q = { maxSize := maxSize.toNat } := by
  simp only [BoundedBlockingQueue.new] at h
  split at h
  · cases h
  · exact (Except.ok.inj h).symm

/-- For every capacity and every interleaving of any number of calls: the elements that were put are those of the calls
of `put` and `emplace` that do not wait any more, and those that were taken are the results of the calls; there are never
more elements than `maxSize`, they are taken in the order in which they were put, and it does not happen that no call can
go on and one waits for what is there. -/
theorem no_lost_wakeup {maxSize : Int} (hnew : BoundedBlockingQueue.new maxSize = .ok q)
    {es : List (Monitor.Event QueueCond (QueueCall α) Nat)}
    {s : Monitor.State (BoundedBlockingQueue α) QueueCond (QueueCall α) (Option α)}
    (run : (monitor α).stepper.Run (fun _ _ => True) ⟨q, []⟩ es s) :
    (es.map (·.brings brings)).sum = (s.calls.map (·.brings brings)).sum + (s.shared.allPut : Multiset α) ∧
      (s.calls.map (·.given returns)).sum = (s.shared.allTaken : Multiset α) ∧
      s.shared.size ≤ maxSize.toNat ∧ s.shared.allTaken ++ s.shared.queue = s.shared.allPut ∧
      ((∀ p ∈ s.calls, p.blockedOrFinished) →
        (∀ o, .waiting o .notEmpty ∈ s.calls → s.shared.empty) ∧
        (∀ o, .waiting o .notFull ∈ s.calls → s.shared.full)) := by
  have hinv : Inv maxSize.toNat s.shared :=
    Monitor.shared_invariant (fun h hleft => h.left hleft) (fun h => ⟨h.maxSize, h.size, h.fifo⟩) (Inv.new hnew) run
  obtain rfl := new_eq hnew
  have hput : (es.map (·.brings brings)).sum = (s.calls.map (·.brings brings)).sum + (s.shared.allPut : Multiset α) := by
    have hrun := balance_put.run run
    rw [Monitor.sum_given_zero, add_zero] at hrun
    rw [← hrun]
    exact (zero_add _).symm
  refine ⟨hput, ?_, hinv.maxSize ▸ hinv.size, hinv.fifo, fun hblocked => ⟨fun o ho => ?_, fun o ho => ?_⟩⟩
  · -- What was put and is not in the queue was returned.
    have hqueue := (zero_add _).symm.trans (balance_queue.run run)
    rw [hput, ← hinv.fifo, add_assoc] at hqueue
    have hreturned := add_left_cancel hqueue
    rw [← Multiset.coe_add, add_comm] at hreturned
    exact (add_left_cancel hreturned).symm
  · have hzero := (demand_notEmpty.covered run).eq_zero_of_blocked ho hblocked
    exact List.isEmpty_iff.mpr (List.length_eq_zero_iff.mp hzero)
  · have hzero := (demand_notFull.covered run).eq_zero_of_blocked ho hblocked
    exact decide_eq_true (le_antisymm hinv.size (Nat.sub_eq_zero_iff_le.mp hzero))

/-- Two consumers wait, an element is put and taken by a third before anyone wakes up, and the notification goes to the
consumer that leaves because of a stop. The other one takes an element that is emplaced, and one more waits. -/
def emplacedAfterStop : List (Monitor.Event QueueCond (QueueCall Nat) Nat) :=
  [.call .take, .enter 0 none, .call (.takeUntilStop 5), .enter 1 none, .call (.put 7), .enter 2 none,
    .call .tryTake, .enter 3 none, .notify 2 (some 1), .external 5, .enter 1 none, .call (.emplace 8), .enter 4 none,
    .notify 4 (some 0), .enter 0 none, .notify 0 none, .call .take, .enter 5 none]

theorem no_lost_wakeup_stopped :
    ∃ q : BoundedBlockingQueue Nat, BoundedBlockingQueue.new 1 = .ok q ∧
      ∃ s, (monitor Nat).stepper.Run (fun _ _ => True) ⟨q, []⟩ emplacedAfterStop s ∧
        s.calls = [.returned (some 8), .returned none, .returned none, .returned (some 7), .returned none,
          .waiting .take .notEmpty] ∧
        (emplacedAfterStop.map (·.brings brings)).sum = (s.shared.allPut : Multiset Nat) ∧
        (s.calls.map (·.given returns)).sum = (([7, 8] : List Nat) : Multiset Nat) ∧ s.shared.empty := by
  have hnew : (BoundedBlockingQueue.new 1 : Except String (BoundedBlockingQueue Nat)) = .ok { maxSize := 1 } := rfl
  have hreplay : ((monitor Nat).stepper.checked (fun _ _ => True) ⟨{ maxSize := 1 }, []⟩ emplacedAfterStop).any (fun s =>
      s.shared.allTaken = [7, 8] ∧ s.calls = [.returned (some 8), .returned none, .returned none, .returned (some 7),
        .returned none, .waiting .take .notEmpty]) = true := by decide
  obtain ⟨s, run, htest⟩ := Stepper.Run.of_any hreplay
  obtain ⟨htaken, hcalls⟩ := of_decide_eq_true htest
  obtain ⟨hput, hreturned, -, -, hblocked⟩ := no_lost_wakeup hnew run
  have hpending : (s.calls.map (·.brings brings)).sum = 0 := by
    rw [hcalls]
    rfl
  rw [hpending, zero_add] at hput
  rw [htaken] at hreturned
  refine ⟨_, hnew, s, run, hcalls, hput, hreturned, (hblocked ?_).1 .take ?_⟩
  · rw [hcalls]
    decide
  · rw [hcalls]
    decide

end BoundedBlockingQueue
end Muduo
