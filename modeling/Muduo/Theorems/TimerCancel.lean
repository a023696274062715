import Muduo.Theorems.TimerQueue

/-! # Cancellation

`cancelInLoop` finds a timer only while it waits. A timer of the running batch is marked, and the mark is
read when the batch is reset, not when the next callback of the batch is started; an add that is still
queued is not looked for at all. So `cancel` is final when the timer is neither of these, and each of them
gives a run in which a canceled timer is started. -/

namespace Muduo
open Lib

namespace TimerLoop
open TimerQueue

/-- `n` was canceled after `addTimer` had returned it. -/
def Dead (log : List TimerEvent) (n : Int) : Prop :=
  ∃ middle older, log = middle ++ .canceled n :: older ∧ .returned n ∈ older

theorem dead_cons {log : List TimerEvent} {e : TimerEvent} {n : Int} :
    Dead (e :: log) n ↔ Dead log n ∨ e = .canceled n ∧ .returned n ∈ log := by
  constructor
  · rintro ⟨middle, older, heq, hmem⟩
    cases middle with
    | nil =>
      obtain ⟨rfl, rfl⟩ := List.cons.inj heq
      exact Or.inr ⟨rfl, hmem⟩
    | cons e' middle =>
      obtain ⟨rfl, rfl⟩ := List.cons.inj heq
      exact Or.inl ⟨middle, older, rfl, hmem⟩
  · rintro (⟨middle, older, rfl, hmem⟩ | ⟨rfl, hmem⟩)
    · exact ⟨e :: middle, older, rfl, hmem⟩
    · exact ⟨[], log, rfl, hmem⟩

theorem Dead.returned {log : List TimerEvent} {n : Int} (h : Dead log n) : .returned n ∈ log := by
  obtain ⟨middle, older, rfl, hmem⟩ := h
  exact List.mem_append_right _ (List.mem_cons_of_mem _ hmem)

/-- No callback is started after the cancel of an id that `addTimer` had returned. -/
def CancelFinal (log : List TimerEvent) : Prop :=
  ∀ n newer middle older, log = newer ++ .started n :: (middle ++ .canceled n :: older) → .returned n ∉ older

/-- `CancelFinal`, event by event. -/
def Final : List TimerEvent → Prop
  | [] => True
  | e :: log => (∀ n, e = .started n → ¬Dead log n) ∧ Final log

theorem Final.of_append {newer log : List TimerEvent} (h : Final (newer ++ log)) : Final log := by
  induction newer with
  | nil => exact h
  | cons e newer ih => exact ih h.2

theorem Final.cancelFinal {log : List TimerEvent} (h : Final log) : CancelFinal log := by
  intro n newer middle older heq hreturned
  have hstarted : Final (.started n :: (middle ++ .canceled n :: older)) := (heq ▸ h).of_append
  exact hstarted.1 n rfl ⟨middle, older, rfl, hreturned⟩

/-- The timer `n` cannot be started any more: it neither waits nor is about to be added, its turn in the
    batch is over, and it is marked if it is in the batch. -/
structure Retired (s : TimerLoop) (n : Int) : Prop where
  toAdd : n ∉ s.toAdd.map (·.sequence)
  active : n ∉ s.queue.activeTimers
  waiting : n ∉ s.queue.waiting.map (·.sequence)
  batch : n ∈ s.queue.batch.map (·.sequence) → n ∈ s.queue.cancelingTimers

structure Canceled (s : TimerLoop) : Prop where
  final : Final s.log
  returned : ∀ n, .returned n ∈ s.log → 0 < n ∧ n ≤ s.numCreated ∧ n ∉ s.inHand.map (·.sequence)
  dead : ∀ n, Dead s.log n → Retired s n

/-- Neither the add of `n` nor its turn in the running batch is still to come. -/
def Settled (s : TimerLoop) (n : Int) : Prop :=
  n ∉ (s.pendingFunctors.filterMap TimerFunctor.timer?).map (·.sequence) ∧
    n ∉ s.queue.waiting.map (·.sequence)

instance (s : TimerLoop) (n : Int) : Decidable (Settled s n) := inferInstanceAs (Decidable (_ ∧ _))

def FunctorSettled (s : TimerLoop) : Option TimerFunctor → Prop
  | some (.cancelInLoop n) => Settled s n
  | _ => True

instance (s : TimerLoop) (f : Option TimerFunctor) : Decidable (FunctorSettled s f) :=
  match f with
  | some (.cancelInLoop n) => inferInstanceAs (Decidable (Settled s n))
  | some (.addTimerInLoop _) | none => instDecidableTrue

/-- Every timer is settled when its cancel is executed. -/
def CancelsSettled : Reentrant.Cond TimerLoop Op Top where
  call
    | .cancel n, s => Settled s n
    | _, _ => True
  top
    | .runFunctor _, s => FunctorSettled s s.pendingFunctors.head?
    | _, _ => True

instance (op : Op) (s : TimerLoop) : Decidable (CancelsSettled.call op s) :=
  match op with
  | .cancel n => inferInstanceAs (Decidable (Settled s n))
  | .addTimer _ _ _ | .createElsewhere _ _ | .queueElsewhere _ | .cancelElsewhere _ => instDecidableTrue

instance (t : Top) (s : TimerLoop) : Decidable (CancelsSettled.top t s) :=
  match t with
  | .handleRead _ _ => instDecidableTrue
  | .runFunctor _ => inferInstanceAs (Decidable (FunctorSettled s s.pendingFunctors.head?))

section Steps
variable {s : TimerLoop} {t : Timer} {n expiration interval now clock : Int}

theorem Retired.addTimerInLoop (h : Inv s) (hfresh : s.queue.timerOwners t.sequence = none)
    (hr : Retired s n) (hne : n ≠ t.sequence) : Retired (addTimerInLoop t clock s) n := by
  obtain ⟨fd, armedAt, heq, -⟩ : ∃ fd armedAt,
      s.queue.addTimerInLoop t clock = { s.queue.added t with timerfd := fd, armedAt := armedAt } ∧ _ :=
    h.rep.addTimerInLoop hfresh
  rw [TimerLoop.addTimerInLoop, heq]
  refine ⟨hr.toAdd, fun hmem => ?_, hr.waiting, hr.batch⟩
  rcases OrderedSet.mem_insert.mp hmem with heq | hmem
  · exact hne heq
  · exact hr.active hmem

theorem Retired.cancelInLoop {m : Int} (h : Inv s) (hr : Retired s n) : Retired (cancelInLoop m s) n := by
  unfold TimerLoop.cancelInLoop
  rcases h.rep.cancelInLoop_cases (n := m) with ⟨t, -, -, heq⟩ | ⟨-, heq⟩ | ⟨-, heq⟩
  · rw [heq]
    exact ⟨hr.toAdd, fun hmem => hr.active (OrderedSet.mem_erase.mp hmem).1, hr.waiting, hr.batch⟩
  · rw [heq]
    exact ⟨hr.toAdd, hr.active, hr.waiting, fun hmem => OrderedSet.mem_insert.mpr (Or.inr (hr.batch hmem))⟩
  · rw [heq]
    exact ⟨hr.toAdd, hr.active, hr.waiting, hr.batch⟩

theorem Inv.retired_of_cancel (h : Inv s) (hn : 0 < n) (hin : n ∉ s.inHand.map (·.sequence))
    (hset : Settled s n) : Retired (TimerLoop.cancelInLoop n s) n := by
  have htoAdd : n ∉ s.toAdd.map (·.sequence) := by
    rw [toAdd, List.map_append, List.mem_append, not_or]
    exact ⟨hin, hset.1⟩
  unfold TimerLoop.cancelInLoop
  rcases h.rep.cancelInLoop_cases (n := n) with ⟨t, ha, -, heq⟩ | ⟨ha, heq⟩ | ⟨hidle, heq⟩
  · rw [heq]
    exact ⟨htoAdd, fun hmem => (OrderedSet.mem_erase.mp hmem).2 rfl, hset.2,
      fun hmem => absurd hmem (h.rep.disjoint n ha)⟩
  · rw [heq]
    exact ⟨htoAdd, ha, hset.2, fun _ => OrderedSet.mem_insert.mpr (Or.inl rfl)⟩
  · rw [heq]
    refine ⟨htoAdd, (hidle hn).1, hset.2, fun hmem => ?_⟩
    rw [h.idle (hidle hn).2] at hmem
    cases hmem

theorem Canceled.cancelInLoop (h : Inv s) (k : Canceled s) (hset : Settled s n) :
    Canceled (TimerLoop.cancelInLoop n s) where
  final := ⟨by simp, k.final⟩
  returned m hm := k.returned m ((List.mem_cons.mp hm).resolve_left (by simp))
  dead m hm := by
    rcases dead_cons.mp hm with hdead | ⟨heq, hret⟩
    · exact (k.dead m hdead).cancelInLoop h
    · obtain rfl := TimerEvent.canceled.inj heq
      obtain ⟨hpos, -, hin⟩ := k.returned n hret
      exact h.retired_of_cancel hpos hin hset

theorem Canceled.addTimerInLoop (h : Inv s) (k : Canceled s) (hfresh : s.queue.timerOwners t.sequence = none)
    (hne : ∀ n, Dead s.log n → n ≠ t.sequence) : Canceled (TimerLoop.addTimerInLoop t clock s) where
  final := k.final
  returned := k.returned
  dead n hn := (k.dead n hn).addTimerInLoop h hfresh (hne n hn)

/-- Only the queue, the timers to add and the log matter to a canceled timer. -/
theorem Canceled.of_toAdd {u : TimerLoop} (k : Canceled s) (hq : u.queue = s.queue) (hlog : u.log = s.log)
    (hc : s.numCreated ≤ u.numCreated)
    (hin : ∀ n, .returned n ∈ s.log → n ∉ u.inHand.map (·.sequence))
    (htoAdd : ∀ t ∈ u.toAdd, t ∈ s.toAdd ∨ s.numCreated < t.sequence) : Canceled u where
  final := hlog ▸ k.final
  returned n hn := by
    rw [hlog] at hn
    obtain ⟨hpos, hle, -⟩ := k.returned n hn
    exact ⟨hpos, le_trans hle hc, hin n hn⟩
  dead n hn := by
    rw [hlog] at hn
    have hr := k.dead n hn
    refine ⟨fun hmem => ?_, hq ▸ hr.active, hq ▸ hr.waiting, hq ▸ hr.batch⟩
    obtain ⟨t, ht, rfl⟩ := List.mem_map.mp hmem
    rcases htoAdd t ht with hold | hlt
    · exact hr.toAdd (List.mem_map_of_mem hold)
    · exact absurd (k.returned _ hn.returned).2.1 (not_le.mpr hlt)

/-- `addTimer` returns the id of a timer that it has passed on. -/
theorem Canceled.returns (k : Canceled s) (hpos : 0 < n) (hle : n ≤ s.numCreated)
    (hin : n ∉ s.inHand.map (·.sequence)) : Canceled { s with log := .returned n :: s.log } where
  final := ⟨by simp, k.final⟩
  returned m hm := by
    rcases List.mem_cons.mp hm with heq | hm
    · obtain rfl := TimerEvent.returned.inj heq
      exact ⟨hpos, hle, hin⟩
    · exact k.returned m hm
  dead m hm := by
    have hr := k.dead m ((dead_cons.mp hm).resolve_right (by simp))
    exact ⟨hr.toAdd, hr.active, hr.waiting, hr.batch⟩

theorem Canceled.addTimer (h : Inv s) (k : Canceled s) : Canceled (addTimer expiration interval clock s) := by
  have hlt : s.numCreated < s.numCreated + 1 := by omega
  have hcount : Inv { s with numCreated := s.numCreated + 1 } :=
    h.of_toAdd rfl (le_of_lt hlt) h.nodup fun _ ht => Or.inl ht
  have hcanceled : Canceled { s with numCreated := s.numCreated + 1 } :=
    k.of_toAdd rfl rfl (le_of_lt hlt) (fun n hn => (k.returned n hn).2.2) fun _ ht => Or.inl ht
  have hnew : s.numCreated + 1 ∉ s.inHand.map (·.sequence) := by
    intro hmem
    refine h.not_mem_toAdd hlt ?_
    rw [toAdd, List.map_append]
    exact List.mem_append_left _ hmem
  have hadded : Canceled (TimerLoop.addTimerInLoop (s.newTimer expiration interval) clock
      { s with numCreated := s.numCreated + 1 }) := by
    refine hcanceled.addTimerInLoop hcount (h.not_owned hlt) fun n hn heq => ?_
    exact absurd (k.returned n hn.returned).2.1 (heq ▸ not_le.mpr hlt)
  exact hadded.returns (Int.lt_add_one_of_le h.nonneg) (le_refl _) hnew

theorem Canceled.createElsewhere (k : Canceled s) : Canceled (createElsewhere expiration interval s) := by
  have hlt : s.numCreated < s.numCreated + 1 := by omega
  refine k.of_toAdd rfl rfl (le_of_lt hlt) (fun n hn => ?_) fun t ht => ?_
  · rw [TimerLoop.createElsewhere, List.map_append, List.mem_append, not_or]
    refine ⟨(k.returned n hn).2.2, fun hmem => ?_⟩
    obtain rfl := List.mem_singleton.mp hmem
    exact absurd (k.returned _ hn).2.1 (not_le.mpr hlt)
  · simp only [toAdd, TimerLoop.createElsewhere, List.mem_append, List.mem_singleton] at ht ⊢
    rcases ht with (ht | rfl) | ht
    · exact Or.inl (Or.inl ht)
    · exact Or.inr hlt
    · exact Or.inl (Or.inr ht)

theorem Canceled.queueElsewhere (h : Inv s) (k : Canceled s) : Canceled (queueElsewhere t s) := by
  by_cases hmem : t ∈ s.inHand
  · have hperm := toAdd_queueElsewhere hmem
    have htoAdd : t ∈ s.toAdd := List.mem_append_left _ hmem
    -- The numbers in hand are distinct, so the one that is returned is not in hand any more.
    have hinHand : (s.inHand.map (·.sequence)).Nodup := h.nodup.sublist ((List.sublist_append_left _ _).map _)
    have hnot : t.sequence ∉ (s.inHand.erase t).map (·.sequence) :=
      (List.nodup_cons.mp (((List.perm_cons_erase hmem).map (·.sequence)).nodup_iff.mp hinHand)).1
    have hsub : (s.inHand.erase t).map (·.sequence) ⊆ s.inHand.map (·.sequence) :=
      ((List.erase_sublist).map _).subset
    rw [TimerLoop.queueElsewhere, if_pos hmem] at hperm ⊢
    have hqueued : Canceled { s with
        inHand := s.inHand.erase t
        pendingFunctors := s.pendingFunctors ++ [.addTimerInLoop t] } :=
      k.of_toAdd rfl rfl (le_refl _) (fun n hn hin => (k.returned n hn).2.2 (hsub hin))
        fun u hu => Or.inl (hperm.mem_iff.mp hu)
    exact hqueued.returns (h.positive t htoAdd) (h.fresh t htoAdd).1 hnot
  · rw [TimerLoop.queueElsewhere, if_neg hmem]
    exact k

theorem Canceled.cancelElsewhere (k : Canceled s) : Canceled (cancelElsewhere n s) := by
  refine k.of_toAdd rfl rfl (le_refl _) (fun m hm => (k.returned m hm).2.2) fun t ht => ?_
  simpa [toAdd, TimerLoop.cancelElsewhere, TimerFunctor.timer?] using Or.inl ht

theorem Canceled.perform {op : Op} (h : Inv s) (k : Canceled s) (hc : CancelsSettled.call op s) :
    Canceled (perform op s) := by
  cases op with
  | addTimer expiration interval clock => exact k.addTimer h
  | cancel n => exact k.cancelInLoop h hc
  | createElsewhere expiration interval => exact k.createElsewhere
  | queueElsewhere t => exact k.queueElsewhere h
  | cancelElsewhere n => exact k.cancelElsewhere

theorem Canceled.popFunctor {f : TimerFunctor} {rest : List TimerFunctor} (k : Canceled s)
    (hp : s.pendingFunctors = f :: rest) : Canceled { s with pendingFunctors := rest } :=
  k.of_toAdd rfl rfl (le_refl _) (fun n hn => (k.returned n hn).2.2)
    fun _ hu => Or.inl ((toAdd_cons hp).mem_iff.mpr (List.mem_append_right _ hu))

theorem Canceled.runFunctor (h : Inv s) (k : Canceled s) (hc : CancelsSettled.top (.runFunctor clock) s) :
    Canceled (runFunctor clock s) := by
  unfold TimerLoop.runFunctor
  split
  case h_1 => exact k
  case h_2 t rest hpending =>
    refine (k.popFunctor hpending).addTimerInLoop (h.popFunctor hpending) (h.head_fresh hpending).2.1 ?_
    rintro n hn rfl
    have htoAdd : t ∈ s.toAdd := (toAdd_cons hpending).mem_iff.mpr List.mem_cons_self
    exact (k.dead _ hn).toAdd (List.mem_map_of_mem htoAdd)
  case h_3 n rest hpending =>
    simp only [CancelsSettled, FunctorSettled, hpending, List.head?_cons, Settled, List.filterMap_cons,
      TimerFunctor.timer?] at hc
    exact (k.popFunctor hpending).cancelInLoop (h.popFunctor hpending) hc

/-- A step that changes only the queue has to keep canceled timers out of it. -/
theorem Canceled.of_queue {q : TimerQueue} (k : Canceled s) (hq : ∀ n, Retired s n → Retired { s with queue := q } n) :
    Canceled { s with queue := q } where
  final := k.final
  returned := k.returned
  dead n hn := hq n (k.dead n hn)

/-- The batch is made of waiting timers, so no canceled one is in it. -/
theorem Canceled.beginExpired (h : Inv s) (k : Canceled s) (hb : s.queue.batch = []) : Canceled (beginExpired now s) := by
  refine k.of_queue fun n hr => ?_
  have hinv : Inv (TimerLoop.beginExpired now s) := h.beginExpired hb
  have hnone : ¬((TimerLoop.beginExpired now s).queue.timerOwners n).isSome = true := by
    rw [h.timerOwners_beginExpired hb, h.rep.keys n, hb]
    rintro (ha | hmem)
    · exact hr.active ha
    · cases hmem
  rw [hinv.rep.keys n, not_or] at hnone
  exact ⟨hr.toAdd, hnone.1, hnone.2, fun hmem => absurd hmem hnone.2⟩

theorem Canceled.takeNext {e : Entry} {rest : List Entry} (k : Canceled s) (hw : s.queue.waiting = e :: rest) :
    Canceled (takeNext rest s) := by
  refine k.of_queue fun n hr => ?_
  have hnot := hr.waiting
  rw [hw] at hnot
  exact ⟨hr.toAdd, hr.active, fun hmem => hnot (List.mem_cons_of_mem _ hmem), hr.batch⟩

/-- The callback whose turn has come is not of a canceled timer. -/
theorem Canceled.start {e : Entry} {rest : List Entry} (k : Canceled s) (hw : s.queue.waiting = e :: rest) :
    Canceled (start e.sequence (TimerLoop.takeNext rest s)) where
  final := by
    refine ⟨fun n heq hdead => ?_, k.final⟩
    obtain rfl := TimerEvent.started.inj heq
    have hnot := (k.dead _ hdead).waiting
    rw [hw] at hnot
    exact hnot List.mem_cons_self
  returned n hn := k.returned n ((List.mem_cons.mp hn).resolve_left (by simp))
  dead n hn := by
    have hdead := (dead_cons.mp hn).resolve_right (by simp)
    have hr := (k.takeNext hw).dead n hdead
    exact ⟨hr.toAdd, hr.active, hr.waiting, hr.batch⟩

theorem Canceled.endExpired (h : Inv s) (k : Canceled s) : Canceled (endExpired s.queue.batch now clock s) := by
  refine k.of_queue fun n hr => ?_
  have hstopped : Rep { s.queue with callingExpiredTimers := false } s.queue.batch := h.rep.of_eq rfl rfl rfl rfl
  obtain ⟨hrep, hreset⟩ : Rep (TimerQueue.reset _ s.queue.batch now clock) [] ∧ _ := hstopped.reset
  refine ⟨hr.toAdd, fun hmem => ?_, by rintro ⟨⟩, by rintro ⟨⟩⟩
  rcases hreset.active n hmem with ha | hcanceling
  · exact hr.active ha
  · have howner : (s.queue.timerOwners n).isSome := hreset.owners n ((hrep.keys n).mpr (Or.inl hmem))
    rcases (h.rep.keys n).mp howner with ha | hb
    · exact hr.active ha
    · exact hcanceling (hr.batch hb)

theorem keptByBatch : KeptByBatch Canceled where
  begins h k hb := k.beginExpired h hb
  takes _ k hw := k.takeNext hw
  starts _ k hw := k.start hw
  ends h k := k.endExpired h

end Steps

/-- In every run in which each timer is settled when its cancel is executed, a cancel is final. -/
theorem cancel_final {es : List (Reentrant.Event Op Top)} {c : Config TimerLoop Int}
    (h : system.stepper.Run (fun c e => CancelsSettled.holds c e) ⟨{}, []⟩ es c) : CancelFinal c.state.log := by
  have k : system.Keeps CancelsSettled (Within Canceled) (Between Canceled) SameBatch :=
    keeps keptByBatch (fun h k hc => k.perform h hc) (fun h k hc => k.runFunctor h hc)
  have hempty : Canceled {} := ⟨trivial, by simp, fun n hn => by cases hn.returned⟩
  have hgood := k.run (Between.empty hempty) h
  exact hgood.1.2.final.cancelFinal

/-- A repeating timer cancels itself in its callback, and it is not started again. -/
theorem cancel_final_self :
    ∃ c, system.stepper.Run (fun c e => CancelsSettled.holds c e) ⟨{}, []⟩
        [.call (.addTimer 10 5 0), .top (.handleRead 20 21), .call (.cancel 1), .ret,
          .top (.handleRead 100 100)] c ∧
      c.state.log = [.canceled 1, .started 1, .returned 1] ∧ CancelFinal c.state.log :=
  Stepper.Run.replay rfl fun run => ⟨rfl, cancel_final run⟩

/-- Two timers of one batch, and the callback of the first cancels the second: it is started all the same.
    A timer that another thread has added is canceled in the loop thread before the loop runs the functor
    that adds it: it is started all the same. -/
theorem started_after_cancel :
    (∃ c, system.stepper.Run (fun _ _ => True) ⟨{}, []⟩
        [.call (.addTimer 10 0 0), .call (.addTimer 10 0 0), .top (.handleRead 20 21), .call (.cancel 2),
          .ret] c ∧
      ¬CancelFinal c.state.log) ∧
    (∃ c, system.stepper.Run (fun _ _ => True) ⟨{}, []⟩
        [.call (.createElsewhere 10 0), .call (.queueElsewhere ⟨10, 0, 1⟩), .call (.cancel 1),
          .top (.runFunctor 1), .top (.handleRead 20 21)] c ∧
      ¬CancelFinal c.state.log) :=
  ⟨Stepper.Run.replay rfl fun _ h => h 2 [] [] [.started 1, .returned 2, .returned 1] rfl (by decide),
    Stepper.Run.replay rfl fun _ h => h 1 [] [] [.returned 1] rfl (by decide)⟩

end TimerLoop
end Muduo
