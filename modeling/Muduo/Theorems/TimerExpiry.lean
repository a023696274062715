import Muduo.Theorems.TimerArming

/-! # One call of `handleRead`

The timers that are due are taken out, their callbacks run one after the other, and the repeating ones are put back.
The callbacks may add timers, which are behind the batch in any case: it was made before they were added. -/

namespace Muduo
open Lib

/-- The entries up to the largest sequence number are those that are due. -/
theorem Entry.le_sentry {e : Entry} {now : Int} (h : e.sequence ≤ TimerQueue.maxSequence) :
    e ≤ ⟨now, TimerQueue.maxSequence⟩ ↔ e.expiration ≤ now := by
  refine ⟨Entry.expiration_le, fun hle => ?_⟩
  have hlex : toLex (e.expiration, e.sequence) ≤ toLex (now, TimerQueue.maxSequence) := by
    rcases lt_or_eq_of_le hle with hlt | heq
    · exact Prod.Lex.toLex_le_toLex.mpr (.inl hlt)
    · exact Prod.Lex.toLex_le_toLex.mpr (.inr ⟨heq, h⟩)
  exact hlex

namespace TimerQueue
variable {q : TimerQueue} {batch : List Entry} {now clock : Int}

theorem timers_reset : (q.reset batch now clock).timers = (batch.foldl (resetEntry now) q).timers := by
  simp only [reset]
  split
  · rfl
  · split <;> rfl

theorem timerOwners_reset : (q.reset batch now clock).timerOwners = (batch.foldl (resetEntry now) q).timerOwners := by
  simp only [reset]
  split
  · rfl
  · split <;> rfl

end TimerQueue

namespace TimerLoop
open TimerQueue

/-- The timers whose callbacks were run, in order. -/
def startedIn (log : List TimerEvent) : List Int :=
  (log.filterMap fun
    | .started n => some n
    | _ => none).reverse

/-- The number of timers created so far and the entries added by callbacks, after one more event. -/
def noteAdded (a : Int × List Entry) : Reentrant.Event Op Top → Int × List Entry
  | .call (.addTimer expiration _ _) => (a.1 + 1, ⟨expiration, a.1 + 1⟩ :: a.2)
  | .call (.createElsewhere _ _) => (a.1 + 1, a.2)
  | _ => a

/-- The entries that a sequence of events adds, with the numbers that their timers get. -/
def addedBy (numCreated : Int) (es : List (Reentrant.Event Op Top)) : List Entry :=
  (es.foldl noteAdded (numCreated, [])).2

/-- A callback runs, and cancels nothing. -/
def CancelsNothing (c : Config TimerLoop Int) : Reentrant.Event Op Top → Prop
  | .call (.cancel _) => False
  | .top _ => False
  | _ => c.frames ≠ []

instance (c : Config TimerLoop Int) (e : Reentrant.Event Op Top) : Decidable (CancelsNothing c e) := by
  unfold CancelsNothing
  split <;> infer_instance

variable {s u : TimerLoop} {now clock : Int} {done l : List Entry} {a : Int × List Entry}

/-- While the callbacks run: those in `done` have been started, and `a` is what they have added. -/
structure During (s : TimerLoop) (now : Int) (done : List Entry) (a : Int × List Entry) (u : TimerLoop) : Prop where
  inv : Inv u
  created : u.numCreated = a.1
  le : s.numCreated ≤ a.1
  batch : u.queue.batch = s.queue.expiredEntries now
  canceling : u.queue.cancelingTimers = ∅
  timers : ∀ e, e ∈ u.queue.timers ↔ e ∈ s.queue.timers ∧ now < e.expiration ∨ e ∈ a.2
  owners : ∀ n ≤ s.numCreated, u.queue.timerOwners n = s.queue.timerOwners n
  added : ∀ e ∈ a.2, s.numCreated < e.sequence
  started : startedIn u.log = startedIn s.log ++ done.map (·.sequence)

/-- After `reset`. -/
structure Finished (s : TimerLoop) (now : Int) (a : Int × List Entry) (u : TimerLoop) : Prop where
  timers : ∀ e, e ∈ u.queue.timers ↔ (e ∈ s.queue.timers ∧ now < e.expiration ∨ e ∈ a.2) ∨
    ∃ b ∈ s.queue.expiredEntries now, ∃ t, s.queue.timerOwners b.sequence = some t ∧ t.repeats ∧
      e = ⟨now + t.interval, b.sequence⟩
  others : ∀ n ≤ s.numCreated, n ∉ (s.queue.expiredEntries now).map (·.sequence) →
    u.queue.timerOwners n = s.queue.timerOwners n
  owners : ∀ b ∈ s.queue.expiredEntries now, ∀ t, s.queue.timerOwners b.sequence = some t →
    u.queue.timerOwners b.sequence = if t.repeats then some ⟨now + t.interval, t.interval, b.sequence⟩ else none
  added : ∀ e ∈ a.2, s.numCreated < e.sequence
  started : startedIn u.log = startedIn s.log ++ (s.queue.expiredEntries now).map (·.sequence)

/-- A timer in the set has an owner, and was created before. -/
theorem Inv.owner_of_mem (h : Inv s) {e : Entry} (he : e ∈ s.queue.timers) :
    (s.queue.timerOwners e.sequence).isSome ∧ e.sequence ≤ s.numCreated := by
  have hsome : (s.queue.timerOwners e.sequence).isSome :=
    (h.rep.keys e.sequence).mpr (.inl ((h.rep.timers e).mp he).1)
  exact ⟨hsome, h.owned _ hsome⟩

theorem Inv.owner_of_expired (h : Inv s) {b : Entry} (hb : b ∈ s.queue.expiredEntries now) :
    (s.queue.timerOwners b.sequence).isSome ∧ b.sequence ≤ s.numCreated :=
  h.owner_of_mem (OrderedSet.mem_upTo.mp hb).1

theorem Inv.le_sentry (h : Inv s) (hseq : s.numCreated ≤ maxSequence) {e : Entry} (he : e ∈ s.queue.timers) :
    e ≤ ⟨now, maxSequence⟩ ↔ e.expiration ≤ now :=
  Entry.le_sentry ((h.owner_of_mem he).2.trans hseq)

theorem During.beginExpired (h : Inv s) (hbatch : s.queue.batch = []) (hseq : s.numCreated ≤ maxSequence) :
    During s now [] (s.numCreated, []) (beginExpired now s) := by
  refine ⟨h.beginExpired hbatch, rfl, le_rfl, rfl, rfl, fun e => ?_, fun n _ => ?_,
    fun e he => absurd he List.not_mem_nil, (List.append_nil _).symm⟩
  · rw [timers_beginExpired, OrderedSet.mem_above, or_iff_left List.not_mem_nil]
    refine and_congr_right fun he => ?_
    rw [← not_le, h.le_sentry hseq he, not_le]
  · exact congrFun (h.timerOwners_beginExpired hbatch) n

theorem startedIn_cons_returned {n : Int} {log : List TimerEvent} : startedIn (.returned n :: log) = startedIn log := rfl

theorem startedIn_cons_started {n : Int} {log : List TimerEvent} :
    startedIn (.started n :: log) = startedIn log ++ [n] := List.reverse_cons

/-- A timer is added in a callback; it is one that was not there before. -/
theorem During.addTimer (h : During s now done a u) (expiration interval clock : Int) :
    During s now done (noteAdded a (.call (.addTimer expiration interval clock)))
      (addTimer expiration interval clock u) := by
  have hlt : u.numCreated < u.numCreated + 1 := by omega
  obtain ⟨fd, armedAt, heq, -⟩ : ∃ fd armedAt, u.queue.addTimerInLoop (u.newTimer expiration interval) clock =
      { u.queue.added (u.newTimer expiration interval) with timerfd := fd, armedAt := armedAt } ∧ _ :=
    h.inv.rep.addTimerInLoop (h.inv.not_owned hlt)
  have hadd : TimerLoop.addTimer expiration interval clock u =
      { u with
        queue := { u.queue.added (u.newTimer expiration interval) with timerfd := fd, armedAt := armedAt }
        numCreated := (u.newTimer expiration interval).sequence
        log := .returned (u.newTimer expiration interval).sequence :: u.log } := by
    rw [← heq]
    dsimp only [TimerLoop.addTimer, TimerLoop.addTimerInLoop]
  have hinv : Inv (TimerLoop.addTimer expiration interval clock u) := h.inv.addTimer.1
  have hcreated := h.created
  have hle := h.le
  rw [hadd] at hinv ⊢
  refine ⟨hinv, congrArg (· + 1) h.created, by simp only [noteAdded]; omega, h.batch, h.canceling, fun e => ?_,
    fun n hn => ?_, fun e he => ?_, startedIn_cons_returned.trans h.started⟩
  · simp only [TimerQueue.added, OrderedSet.mem_insert, newTimer, noteAdded, List.mem_cons, h.timers, hcreated]
    exact or_left_comm
  · have hne : n ≠ (u.newTimer expiration interval).sequence := by
      simp only [newTimer]
      omega
    exact (if_neg hne).trans (h.owners n hn)
  · rcases List.mem_cons.mp he with rfl | he
    · exact Int.lt_add_one_iff.mpr hle
    · exact h.added e he

/-- The queue is left alone. -/
theorem During.of_queue {u' : TimerLoop} {a' : Int × List Entry} (h : During s now done a u) (hinv : Inv u')
    (hqueue : u'.queue = u.queue) (hcreated : u'.numCreated = a'.1) (hle : a.1 ≤ a'.1) (hadded : a'.2 = a.2)
    (hstarted : startedIn u'.log = startedIn u.log) : During s now done a' u' := by
  refine ⟨hinv, hcreated, h.le.trans hle, hqueue ▸ h.batch, hqueue ▸ h.canceling, ?_, hqueue ▸ h.owners,
    hadded ▸ h.added, hstarted.trans h.started⟩
  rw [hqueue, hadded]
  exact h.timers

theorem During.perform (h : During s now done a u) {op : Op} (hop : ∀ n, op ≠ .cancel n) :
    During s now done (noteAdded a (.call op)) (perform op u) := by
  have hinv : Inv (TimerLoop.perform op u) := h.inv.perform.1
  cases op with
  | addTimer expiration interval clock => exact h.addTimer expiration interval clock
  | cancel n => exact absurd rfl (hop n)
  | createElsewhere expiration interval =>
    exact h.of_queue hinv rfl (congrArg (· + 1) h.created) (Int.le_of_lt (Int.lt_succ _)) rfl rfl
  | queueElsewhere t =>
    simp only [TimerLoop.perform, queueElsewhere] at hinv ⊢
    split at hinv
    · rename_i hmem
      rw [if_pos hmem]
      exact h.of_queue hinv rfl h.created le_rfl rfl startedIn_cons_returned
    · rename_i hmem
      rw [if_neg hmem]
      exact h
  | cancelElsewhere n => exact h.of_queue hinv rfl h.created le_rfl rfl rfl

/-- The next callback is started. -/
theorem During.start (h : During s now done a u) (e : Entry) (rest : List Entry) :
    During s now (done ++ [e]) a (start e.sequence (takeNext rest u)) := by
  have hinv : Inv (takeNext rest u) := h.inv.setQueue (h.inv.rep.of_eq rfl rfl rfl rfl) h.inv.idle fun _ hn => hn
  refine ⟨hinv.setLog _, h.created, h.le, h.batch, h.canceling, h.timers, h.owners, h.added, ?_⟩
  refine startedIn_cons_started.trans ?_
  rw [List.map_append, ← List.append_assoc]
  exact congrArg (· ++ [e.sequence]) h.started

/-- All callbacks have run. -/
theorem During.finish (h : During s now (s.queue.expiredEntries now) a u) (hs : Inv s) :
    Finished s now a (endExpired (s.queue.expiredEntries now) now clock u) := by
  have hrep : Rep { u.queue with callingExpiredTimers := false } (s.queue.expiredEntries now) :=
    (h.batch ▸ h.inv.rep).of_eq rfl rfl rfl rfl
  have hsched : Rescheduled now _ _ (List.foldl (resetEntry now) _ _) := hrep.rescheduled
  have howner : ∀ b ∈ s.queue.expiredEntries now,
      u.queue.timerOwners b.sequence = s.queue.timerOwners b.sequence := fun b hb =>
    h.owners _ (hs.owner_of_expired hb).2
  have hnot : ∀ n, n ∉ u.queue.cancelingTimers := fun n => by
    rw [h.canceling]
    exact OrderedSet.not_mem_empty
  refine ⟨fun e => ?_, fun n hn hb => ?_, fun b hb t ht => ?_, h.added, h.started⟩
  · simp only [endExpired, timers_reset]
    rw [hsched.timers]
    refine or_congr (h.timers e) (exists_congr fun b => and_congr_right fun hb => exists_congr fun t => ?_)
    rw [howner b hb, and_iff_left (hnot _)]
  · simp only [endExpired, timerOwners_reset]
    rw [hsched.owners n hb]
    exact h.owners n hn
  · simp only [endExpired, timerOwners_reset]
    rw [hsched.batchOwners b hb t ((howner b hb).trans ht)]
    simp only [hnot, not_false_eq_true, and_true]

/-! ## The run of one call -/

/-- What is left of `handleRead` when the entries `rest` still wait. -/
def handleReadFrom (expired : List Entry) (now clock : Int) (rest : List Entry) : Code TimerLoop Int Unit :=
  (runExpired rest).bind fun _ => Code.modify (endExpired expired now clock)

theorem enter_handleReadFrom_cons {expired rest : List Entry} {e : Entry}
    (h : (u.queue.timerOwners e.sequence).isSome) :
    Config.enter (handleReadFrom expired now clock (e :: rest)) u [] =
      ⟨start e.sequence (takeNext rest u), [(e.sequence, handleReadFrom expired now clock rest)]⟩ := by
  have hcode : (handleReadFrom expired now clock (e :: rest)).exec u =
      .calls e.sequence (start e.sequence (takeNext rest u)) (handleReadFrom expired now clock rest) := by
    simp only [handleReadFrom, runExpired, bind, Code.get, Code.modify, Code.bind, Code.exec, if_pos h]
    rfl
  rw [Config.enter, hcode]

/-- Where the call is: in the callback of an entry of the batch, or at its end. -/
def InCall (s : TimerLoop) (now clock : Int) (c : Config TimerLoop Int) (a : Int × List Entry) : Prop :=
  (∃ done e rest, s.queue.expiredEntries now = done ++ e :: rest ∧
    c.frames = [(e.sequence, handleReadFrom (s.queue.expiredEntries now) now clock rest)] ∧
    During s now (done ++ [e]) a c.state) ∨
  c.frames = [] ∧ Finished s now a c.state

/-- The timer of the next entry has not been deleted. -/
theorem During.owned (h : During s now done a u) (hs : Inv s) {e : Entry} {rest : List Entry}
    (hl : s.queue.expiredEntries now = done ++ e :: rest) : (u.queue.timerOwners e.sequence).isSome := by
  have hmem : e ∈ s.queue.expiredEntries now := by
    rw [hl]
    exact List.mem_append_right _ List.mem_cons_self
  obtain ⟨hsome, hle⟩ := hs.owner_of_expired hmem
  rw [h.owners _ hle]
  exact hsome

theorem InCall.added {c : Config TimerLoop Int} (h : InCall s now clock c a) : ∀ e ∈ a.2, s.numCreated < e.sequence := by
  rcases h with ⟨_, _, _, _, _, h⟩ | ⟨_, h⟩
  · exact h.added
  · exact h.added

/-- A callback has returned: the next one is called, or the batch is reset. -/
theorem During.goes_on (h : During s now done a u) (hs : Inv s) (hl : s.queue.expiredEntries now = done ++ l) :
    InCall s now clock (Config.enter (handleReadFrom (s.queue.expiredEntries now) now clock l) u []) a := by
  cases l with
  | nil =>
    rw [List.append_nil] at hl
    rw [← hl] at h
    exact .inr ⟨rfl, h.finish hs⟩
  | cons e rest =>
    rw [enter_handleReadFrom_cons (h.owned hs hl)]
    exact .inl ⟨done, e, rest, hl, rfl, h.start e rest⟩

theorem InCall.step {c d : Config TimerLoop Int} {e : Reentrant.Event Op Top} (h : InCall s now clock c a) (hs : Inv s)
    (hc : CancelsNothing c e) (hstep : system.stepper.step c e = some d) : InCall s now clock d (noteAdded a e) := by
  obtain ⟨state, frames⟩ := c
  rcases h with ⟨done, b, rest, hl, rfl, hduring⟩ | ⟨rfl, -⟩
  · cases e with
    | call op =>
      cases hstep
      have hop : ∀ n, op ≠ .cancel n := fun n hop => by
        rw [hop] at hc
        exact hc
      exact .inl ⟨done, b, rest, hl, rfl, hduring.perform hop⟩
    | ret =>
      cases hstep
      rw [List.append_cons] at hl
      exact hduring.goes_on hs hl
    | top t => exact hc.elim
  · cases e with
    | call op =>
      cases op with
      | cancel n => exact hc.elim
      | _ => exact absurd rfl hc
    | ret => exact absurd rfl hc
    | top t => exact hc.elim

/-- The call ends when the callbacks that are left return. -/
theorem InCall.returns {c : Config TimerLoop Int} (h : InCall s now clock c a) (hs : Inv s) :
    ∃ k t, system.stepper.Run CancelsNothing c (List.replicate k .ret) ⟨t, []⟩ := by
  obtain ⟨state, frames⟩ := c
  rcases h with ⟨done, b, rest, hl, rfl, hduring⟩ | ⟨rfl, -⟩
  · induction rest generalizing done b state with
    | nil => exact ⟨1, _, .cons (List.cons_ne_nil _ _) rfl (.nil _)⟩
    | cons e rest ih =>
      rw [List.append_cons] at hl
      obtain ⟨k, t, run⟩ := ih _ _ _ hl (hduring.start e rest)
      refine ⟨k + 1, t, .cons (List.cons_ne_nil _ _) ?_ run⟩
      exact congrArg some (enter_handleReadFrom_cons (hduring.owned hs hl))
  · exact ⟨0, _, .nil _⟩

/-- In every state that can be reached and for every `now`, if the callbacks add timers and cancel none: `handleRead`
returns if they do, and it runs the callbacks of the timers that are due, once each and in their order, puts the
repeating ones back with the next expiration, drops the others, and leaves the rest as it was; the timers that are added
are there, and none of them was run. -/
theorem handleRead_exact {es₀ : List (Reentrant.Event Op Top)}
    (reach : system.stepper.Run (fun _ _ => True) ⟨{}, []⟩ es₀ ⟨s, []⟩) (hseq : s.numCreated ≤ maxSequence)
    {c d : Config TimerLoop Int} (hstep : system.stepper.step ⟨s, []⟩ (.top (.handleRead now clock)) = some c)
    {es : List (Reentrant.Event Op Top)} (run : system.stepper.Run CancelsNothing c es d) :
    (∃ k t, system.stepper.Run CancelsNothing d (List.replicate k .ret) ⟨t, []⟩) ∧
    ∃ batch : List Entry, batch.Pairwise (· < ·) ∧
      (∀ e, e ∈ batch ↔ e ∈ s.queue.timers ∧ e.expiration ≤ now) ∧
      (∀ e ∈ addedBy s.numCreated es, e.sequence ∉ batch.map (·.sequence)) ∧
      (∃ ran, ran <+: batch ∧ startedIn d.state.log = startedIn s.log ++ ran.map (·.sequence)) ∧
      (d.frames ≠ [] → ∀ e, e ∈ d.state.queue.timers ↔
        e ∈ s.queue.timers ∧ now < e.expiration ∨ e ∈ addedBy s.numCreated es) ∧
      (d.frames = [] →
        startedIn d.state.log = startedIn s.log ++ batch.map (·.sequence) ∧
        (∀ e, e ∈ d.state.queue.timers ↔ (e ∈ s.queue.timers ∧ now < e.expiration ∨ e ∈ addedBy s.numCreated es) ∨
          ∃ b ∈ batch, ∃ t, s.queue.timerOwners b.sequence = some t ∧ t.repeats ∧
            e = ⟨now + t.interval, b.sequence⟩) ∧
        (∀ b ∈ batch, ∃ t, s.queue.timerOwners b.sequence = some t ∧ d.state.queue.timerOwners b.sequence =
          if t.repeats then some ⟨now + t.interval, t.interval, b.sequence⟩ else none) ∧
        ∀ n ≤ s.numCreated, n ∉ batch.map (·.sequence) →
          d.state.queue.timerOwners n = s.queue.timerOwners n) := by
  obtain ⟨hs, hbatch⟩ : Inv s ∧ _ := Inv.of_run reach
  have hbegin : During s now [] (s.numCreated, []) (beginExpired now s) := During.beginExpired hs (hbatch rfl) hseq
  have hc : InCall s now clock c (s.numCreated, []) := by
    cases hstep
    exact hbegin.goes_on hs rfl
  have hd : InCall s now clock d (es.foldl noteAdded (s.numCreated, [])) :=
    run.refines (R := InCall s now clock) (fun h hcond hstep => h.step hs hcond hstep) hc
  have hnew : ∀ e ∈ addedBy s.numCreated es, e.sequence ∉ (s.queue.expiredEntries now).map (·.sequence) := by
    intro e he hmem
    obtain ⟨b, hb, hbe⟩ := List.mem_map.mp hmem
    have hlt : s.numCreated < e.sequence := hd.added e he
    have hle := (hs.owner_of_expired hb).2
    omega
  refine ⟨hd.returns hs, s.queue.expiredEntries now, s.queue.timers.sorted.sublist (List.takeWhile_sublist _),
    fun e => ?_, hnew, ?_⟩
  · rw [expiredEntries, OrderedSet.mem_upTo]
    exact and_congr_right fun he => hs.le_sentry hseq he
  rcases hd with ⟨done, e, rest, hl, hframes, h⟩ | ⟨hframes, h⟩
  · rw [List.append_cons] at hl
    refine ⟨⟨done ++ [e], ⟨rest, hl.symm⟩, h.started⟩, fun _ => h.timers, fun hempty => ?_⟩
    rw [hframes] at hempty
    exact absurd hempty (List.cons_ne_nil _ _)
  · refine ⟨⟨_, List.prefix_rfl, h.started⟩, fun hne => absurd hframes hne,
      fun _ => ⟨h.started, h.timers, fun b hb => ?_, h.others⟩⟩
    obtain ⟨t, ht⟩ := Option.isSome_iff_exists.mp (hs.owner_of_expired hb).1
    exact ⟨t, ht, h.owners b hb t ht⟩

/-- A timer and a repeating one are due, and the callback of the first adds one in the past: it is not run, though it is
the first afterwards. -/
theorem handleRead_exact_past :
    ∃ c, system.stepper.Run (fun _ _ => True) ⟨{}, []⟩
        [.call (.addTimer 10 0 0), .call (.addTimer 20 5 0), .call (.addTimer 30 0 0)] c ∧
      c.frames = [] ∧ c.state.numCreated ≤ maxSequence ∧
      ∃ d, system.stepper.Run CancelsNothing (Config.enter (handleRead 20 21) c.state [])
          [.call (.addTimer 15 0 22), .ret, .ret] d ∧
        d.frames = [] ∧ d.state.queue.timers.toList = [⟨15, 4⟩, ⟨25, 2⟩, ⟨30, 3⟩] ∧ startedIn d.state.log = [1, 2] ∧
        ∃ batch : List Entry, batch.Pairwise (· < ·) ∧
          (∀ e, e ∈ batch ↔ e ∈ c.state.queue.timers ∧ e.expiration ≤ 20) ∧
          startedIn d.state.log = startedIn c.state.log ++ batch.map (·.sequence) := by
  have hseq : (3 : Int) ≤ maxSequence := by decide
  refine Stepper.Run.replay rfl fun reach => ⟨rfl, hseq, Stepper.Run.replay rfl fun run => ⟨rfl, rfl, rfl, ?_⟩⟩
  obtain ⟨-, batch, hsorted, hmem, -, -, -, hend⟩ := handleRead_exact reach hseq rfl run
  exact ⟨batch, hsorted, hmem, (hend rfl).1⟩

end TimerLoop
end Muduo
