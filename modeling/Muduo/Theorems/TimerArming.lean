import Muduo.Theorems.TimerQueue

/-! # The timerfd is set for the first timer

The timerfd is set when a timer is added before all others and at the end of `handleRead`. In between its deadline is
never too late for a timer that waits: canceling only takes timers away. While callbacks run nothing is asked of the
timers in the future, since `reset` looks at them afterwards, but those that expire at zero or earlier it skips. -/

namespace Muduo
open Lib

/-- An entry that is not after another does not expire after it. -/
theorem Entry.expiration_le {a b : Entry} (h : a ≤ b) : a.expiration ≤ b.expiration := by
  have hlex : toLex (a.expiration, a.sequence) ≤ toLex (b.expiration, b.sequence) := h
  rcases Prod.Lex.toLex_le_toLex.mp hlex with hlt | ⟨heq, -⟩
  · exact le_of_lt hlt
  · exact le_of_eq heq

namespace TimerQueue
variable {q : TimerQueue} {batch : List Entry} {t : Timer} {n x y clock now : Int} {P : Int → Prop} {first e : Entry}

/-- The timerfd fires not after an expiration, unless it was set too late for that. -/
def ArmedFor (q : TimerQueue) (expiration : Int) : Prop :=
  ∃ deadline, q.timerfd = some deadline ∧ deadline ≤ max expiration (q.armedAt + 100)

theorem ArmedFor.mono (h : q.ArmedFor x) (hxy : x ≤ y) : q.ArmedFor y := by
  obtain ⟨deadline, hfd, hle⟩ := h
  exact ⟨deadline, hfd, by omega⟩

theorem armedFor_resetTimerfd : (q.resetTimerfd x clock).ArmedFor x := by
  refine ⟨_, rfl, ?_⟩
  simp only [resetTimerfd, howMuchTimeFromNow]
  omega

/-- The timerfd is set for the timers whose expirations have a property. -/
def ArmedWhen (P : Int → Prop) (q : TimerQueue) : Prop := ∀ e ∈ q.timers, P e.expiration → q.ArmedFor e.expiration

theorem ArmedFor.of_eq {q' : TimerQueue} (h : q.ArmedFor x) (hfd : q'.timerfd = q.timerfd)
    (hat : q'.armedAt = q.armedAt) : q'.ArmedFor x := by
  rw [ArmedFor, hfd, hat]
  exact h

/-- It is set for all if it is set for the first. -/
theorem armedWhen_of_head? (hhead : q.timers.head? = some first) (h : q.ArmedFor first.expiration) : ArmedWhen P q :=
  fun _ he _ => h.mono (Entry.expiration_le (OrderedSet.le_of_head? hhead he))

theorem armedWhen_of_none (hhead : q.timers.head? = none) : ArmedWhen P q :=
  fun _ he => absurd he (OrderedSet.not_mem_of_head? hhead)

/-- A timer is added, and the timerfd set for it if no other expires earlier. -/
theorem ArmedWhen.addTimerInLoop (hP : ∀ {x y}, x ≤ y → P y → P x) (h : ArmedWhen P q) (hrep : Rep q batch)
    (hfresh : q.timerOwners t.sequence = none) : ArmedWhen P (q.addTimerInLoop t clock) := by
  obtain ⟨-, heq⟩ : _ ∧ q.addTimerInLoop t clock = _ := hrep.addTimerInLoop_eq hfresh
  rw [heq]
  split
  case isTrue hchanges =>
    intro e he _
    refine armedFor_resetTimerfd.mono ?_
    rcases OrderedSet.mem_insert.mp he with rfl | he
    · exact le_rfl
    · unfold earliestChanges at hchanges
      cases hhead : q.timers.head? with
      | none => exact absurd he (OrderedSet.not_mem_of_head? hhead)
      | some first =>
        rw [hhead] at hchanges
        exact (le_of_lt (of_decide_eq_true hchanges)).trans (Entry.expiration_le (OrderedSet.le_of_head? hhead he))
  case isFalse hchanges =>
    intro e he hPe
    rcases OrderedSet.mem_insert.mp he with rfl | he
    · -- An earlier timer is there already, for which the timerfd is set.
      unfold earliestChanges at hchanges
      cases hhead : q.timers.head? with
      | none =>
        rw [hhead] at hchanges
        exact absurd rfl hchanges
      | some first =>
        rw [hhead] at hchanges
        have hle : first.expiration ≤ t.expiration := by
          simpa using hchanges
        exact ((h first (OrderedSet.mem_of_head? hhead) (hP hle hPe)).mono hle).of_eq rfl rfl
    · exact (h e he hPe).of_eq rfl rfl

theorem ArmedWhen.cancelInLoop (h : ArmedWhen P q) (hrep : Rep q batch) : ArmedWhen P (q.cancelInLoop n) := by
  rcases hrep.cancelInLoop_cases (n := n) with ⟨t, -, -, heq⟩ | ⟨-, heq⟩ | ⟨-, heq⟩
  · rw [heq]
    exact fun e he hPe => (h e (OrderedSet.mem_erase.mp he).1 hPe).of_eq rfl rfl
  · rw [heq]
    exact fun e he hPe => (h e he hPe).of_eq rfl rfl
  · rw [heq]
    exact h

/-- At the end of `handleRead` the timerfd is set for the first timer, unless that one expires at zero or earlier;
then it was set when that timer was added. -/
theorem ArmedWhen.reset (h : ArmedWhen (· ≤ 0) q) (hrep : Rep q batch) (hnow : 0 < now) :
    ArmedWhen (fun _ => True) (q.reset batch now clock) := by
  have hsched : Rescheduled now batch q (batch.foldl (resetEntry now) q) := hrep.rescheduled
  simp only [TimerQueue.reset]
  split
  case h_1 hhead => exact armedWhen_of_none hhead
  case h_2 first hhead =>
    split
    case isTrue => exact armedWhen_of_head? hhead armedFor_resetTimerfd
    case isFalse hpast =>
      refine armedWhen_of_head? hhead ?_
      have hold : first ∈ q.timers := by
        rcases (hsched.timers first).mp (OrderedSet.mem_of_head? hhead) with hold | ⟨b, -, t, -, ⟨hrepeat, -⟩, rfl⟩
        · exact hold
        · have hinterval : 0 < t.interval := of_decide_eq_true hrepeat
          simp only at hpast
          omega
      exact (h first hold (not_lt.mp hpast)).of_eq hsched.timerfd hsched.armedAt

theorem timers_foldl_eraseActive {l : List Entry} : (l.foldl eraseActive q).timers = q.timers := by
  induction l generalizing q with
  | nil => rfl
  | cons e l ih =>
    rw [List.foldl_cons, ih]
    unfold eraseActive check
    split <;> rfl

theorem timers_check {a : TimerAssert} {holds : Bool} : (q.check a holds).timers = q.timers := by
  unfold check
  split <;> rfl

theorem timers_getExpired : (q.getExpired now).timers = q.timers.above ⟨now, maxSequence⟩ := by
  simp only [getExpired, checkSizes, timers_check, timers_foldl_eraseActive]

end TimerQueue

namespace TimerLoop
open TimerQueue
variable {s : TimerLoop} {P : Int → Prop} {now clock : Int}

theorem timers_beginExpired : (beginExpired now s).queue.timers = s.queue.timers.above ⟨now, maxSequence⟩ := by
  simp only [beginExpired, timers_getExpired, readTimerfd_timers]

/-- After the expired timers are taken out, the others expire in the future. -/
theorem armedWhen_beginExpired (hnow : 0 < now) : ArmedWhen (· ≤ 0) (beginExpired now s).queue := by
  intro e he hpast
  rw [timers_beginExpired, OrderedSet.mem_above] at he
  have hle : now ≤ e.expiration := Entry.expiration_le (le_of_lt he.2)
  omega

theorem armedWhen_perform (hP : ∀ {x y}, x ≤ y → P y → P x) (h : ArmedWhen P s.queue) (hinv : Inv s) (op : Op) :
    ArmedWhen P (perform op s).queue := by
  cases op with
  | addTimer expiration interval clock =>
    exact h.addTimerInLoop hP hinv.rep (hinv.not_owned (by simp only [newTimer]; omega))
  | cancel n => exact h.cancelInLoop hinv.rep
  | createElsewhere expiration interval => exact h
  | queueElsewhere t =>
    simp only [perform, queueElsewhere]
    split <;> exact h
  | cancelElsewhere n => exact h

theorem armedWhen_runFunctor (hP : ∀ {x y}, x ≤ y → P y → P x) (h : ArmedWhen P s.queue) (hinv : Inv s) (clock : Int) :
    ArmedWhen P (runFunctor clock s).queue := by
  unfold runFunctor
  split
  case h_1 => exact h
  case h_2 t rest hpending =>
    obtain ⟨-, hfresh, -⟩ := hinv.head_fresh hpending
    exact h.addTimerInLoop hP hinv.rep hfresh
  case h_3 n rest hpending => exact h.cancelInLoop hinv.rep

theorem armedWhen_endExpired (h : ArmedWhen (· ≤ 0) s.queue) (hinv : Inv s) (hnow : 0 < now) :
    ArmedWhen (fun _ => True) (endExpired s.queue.batch now clock s).queue := by
  have hpast : ArmedWhen (· ≤ 0) { s.queue with callingExpiredTimers := false } := h
  have hrep : Rep { s.queue with callingExpiredTimers := false } s.queue.batch := hinv.rep.of_eq rfl rfl rfl rfl
  exact hpast.reset hrep hnow

/-- `handleRead` reads a positive clock. -/
def positiveClock : Reentrant.Cond TimerLoop Op Top where
  call _ _ := True
  top t _ :=
    match t with
    | .handleRead now _ => 0 < now
    | .runFunctor _ => True

instance (op : Op) (s : TimerLoop) : Decidable (positiveClock.call op s) := instDecidableTrue

instance (t : Top) (s : TimerLoop) : Decidable (positiveClock.top t s) :=
  match t with
  | .handleRead now _ => inferInstanceAs (Decidable (0 < now))
  | .runFunctor _ => instDecidableTrue

/-- Code that runs while no callback does leaves the timerfd set for every timer. -/
def KeepsArmed (s t : TimerLoop) : Prop :=
  SameBatch s t ∧ (ArmedWhen (fun _ => True) s.queue → ArmedWhen (fun _ => True) t.queue)

theorem keeps_armed :
    system.Keeps positiveClock (Within fun s => ArmedWhen (· ≤ 0) s.queue)
      (fun s => Between (fun s => ArmedWhen (· ≤ 0) s.queue) s ∧ ArmedWhen (fun _ => True) s.queue) KeepsArmed where
  refl s := ⟨.refl s, id⟩
  trans h h' := ⟨h.1.trans h'.1, fun ha => h'.2 (h.2 ha)⟩
  inner h := h.1.1
  outer h ht hr := ⟨⟨ht, hr.1.1.trans h.1.2⟩, hr.2 h.2⟩
  api := by
    intro op s h _
    obtain ⟨hinv, hsame⟩ : Inv (perform op s) ∧ _ := h.1.perform
    exact ⟨⟨hinv, armedWhen_perform (fun hxy hy => hxy.trans hy) h.2 h.1 op⟩, hsame,
      fun ha => armedWhen_perform (fun _ h => h) ha h.1 op⟩
  top := by
    intro t s h _ hc
    obtain ⟨⟨⟨hinv, hpast⟩, hbatch⟩, hall⟩ := h
    cases t with
    | handleRead now clock =>
      simp only [system, top, handleRead, Code.wp_bind, Code.wp_get, Code.wp_modify]
      have hbegin : Within (fun s => ArmedWhen (· ≤ 0) s.queue) (beginExpired now s) :=
        ⟨hinv.beginExpired hbatch, armedWhen_beginExpired hc⟩
      refine Code.wp_mono (fun _ t ht => ?_) (wp_runExpired And.left ⟨fun _ h _ => h, fun _ h _ => h⟩ hbegin rfl)
      obtain ⟨⟨hinv', hpast'⟩, hb⟩ := ht
      have hexpired : s.queue.expiredEntries now = t.queue.batch := hb.symm
      rw [hexpired]
      have hend : ArmedWhen _ (endExpired _ now clock t).queue := armedWhen_endExpired hpast' hinv' hc
      exact ⟨⟨⟨hinv'.endExpired, fun e he _ => hend e he trivial⟩, rfl⟩, hend⟩
    | runFunctor clock =>
      obtain ⟨hinv', hsame⟩ : Inv (runFunctor clock s) ∧ _ := hinv.runFunctor
      exact ⟨⟨⟨hinv', armedWhen_runFunctor (fun hxy hy => hxy.trans hy) hpast hinv clock⟩, hsame.1.trans hbatch⟩,
        armedWhen_runFunctor (fun _ h => h) hall hinv clock⟩

/-- Outside `handleRead`, whatever was added and canceled before and in callbacks: while a timer waits, the timerfd is
set and has not been read since, with a deadline not after the earliest expiration, or not after a hundred microseconds
from when it was set. -/
theorem timerfd_armed {es : List (Reentrant.Event Op Top)} {c : Config TimerLoop Int}
    (run : system.stepper.Run (fun c e => positiveClock.holds c e) ⟨{}, []⟩ es c) (hframes : c.frames = [])
    {first : Entry} (hfirst : c.state.queue.timers.head? = some first) :
    ∃ deadline, c.state.queue.timerfd = some deadline ∧
      deadline ≤ max first.expiration (c.state.queue.armedAt + 100) := by
  have hempty : ∀ {P}, ArmedWhen P ({} : TimerLoop).queue := fun _ he => absurd he OrderedSet.not_mem_empty
  obtain ⟨-, hgood⟩ := keeps_armed.run ⟨.empty hempty, hempty⟩ run
  rw [hframes] at hgood
  exact hgood.2 first (OrderedSet.mem_of_head? hfirst) trivial

/-- A callback adds a timer that expires before the epoch, which `reset` does not set the timerfd for. -/
theorem timerfd_armed_invalid :
    ∃ c, system.stepper.Run (fun c e => positiveClock.holds c e) ⟨{}, []⟩
        [.call (.addTimer 1 0 2), .top (.handleRead 3 5), .call (.addTimer (-1) 0 4), .ret] c ∧
      c.frames.length = 0 ∧ c.state.queue.timers.head? = some ⟨-1, 2⟩ ∧
      ∃ deadline, c.state.queue.timerfd = some deadline ∧ deadline ≤ max (-1) (c.state.queue.armedAt + 100) := by
  refine Stepper.Run.replay rfl fun run => ⟨rfl, rfl, ?_⟩
  exact timerfd_armed run rfl rfl

end TimerLoop
end Muduo
