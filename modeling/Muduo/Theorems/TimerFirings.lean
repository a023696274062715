import Muduo.Theorems.TimerExpiry

/-! # When callbacks run

The loop with a history: which timers were created, and at which reading of the clock `handleRead` started a callback.
A timer is in the batch of a `handleRead` only if it has expired, and a repeating one is restarted from the reading of
that `handleRead`. So a timer never runs early, a repeating one keeps its distance, and any other runs once; nothing is
assumed about the clock. -/

namespace Muduo
open Lib TimerQueue

/-- A loop and its history, newest first. -/
structure TimerHistory where
  loop : TimerLoop := {}
  /-- What the last `handleRead` took for the time. -/
  now : Int := 0
  /-- The timers, as `addTimer` made them. -/
  created : List Timer := []
  /-- The callbacks started, with the time of the `handleRead` that started them. -/
  fired : List (Int × Int) := []

namespace TimerHistory
open TimerLoop (Op Top)

/-! ## The system -/

def onLoop (f : TimerLoop → TimerLoop) (s : TimerHistory) : TimerHistory := { s with loop := f s.loop }

def createdBy (s : TimerLoop) : Op → List Timer
  | .addTimer expiration interval _ => [s.newTimer expiration interval]
  | .createElsewhere expiration interval => [s.newTimer expiration interval]
  | _ => []

def perform (op : Op) (s : TimerHistory) : TimerHistory :=
  { s with loop := TimerLoop.perform op s.loop, created := createdBy s.loop op ++ s.created }

def fire (n : Int) (s : TimerHistory) : TimerHistory := { s with fired := (n, s.now) :: s.fired }

def readClock (now : Int) (s : TimerHistory) : TimerHistory := { s with now := now }

/-- `handleRead` of the loop, with each callback noted when it is started. -/
def noted (code : Code TimerLoop Int Unit) : Code TimerHistory Int Unit :=
  code.handle loop (fun l s => { s with loop := l }) fun n => do
    Code.modify (fire n)
    Code.callback n

def top : Top → Code TimerHistory Int Unit
  | .handleRead now clock => do
    Code.modify (readClock now)
    noted (TimerLoop.handleRead now clock)
  | .runFunctor clock => noted (Code.modify (TimerLoop.runFunctor clock))

def system : Reentrant TimerHistory Int Op Top := ⟨fun op => Code.modify (perform op), top, fun _ _ => true⟩

/-- When the callback of a timer was started. -/
def times (s : TimerHistory) (n : Int) : List Int := (s.fired.filter (·.1 = n)).map (·.2)

/-! ## Schedules -/

/-- The times at which a timer may run: not before it expires, and again an interval later if it repeats. -/
inductive Schedule (t : Timer) : List Int → Prop
  | none : Schedule t []
  | first {now : Int} : t.expiration ≤ now → Schedule t [now]
  | again {now last : Int} {times : List Int} :
      t.repeats = true → last + t.interval ≤ now → Schedule t (last :: times) → Schedule t (now :: last :: times)

/-- The timer `t'` is the timer `t` as it waits for its next turn. -/
def Awaits (t t' : Timer) : List Int → Prop
  | [] => t'.expiration = t.expiration
  | last :: _ => t.repeats = true ∧ t'.expiration = last + t.interval

theorem Schedule.next {t t' : Timer} {times : List Int} {now : Int} (h : Schedule t times) (hawaits : Awaits t t' times)
    (hdue : t'.expiration ≤ now) : Schedule t (now :: times) := by
  cases times with
  | nil =>
    rw [hawaits] at hdue
    exact .first hdue
  | cons last times =>
    obtain ⟨hrepeats, hnext⟩ := hawaits
    rw [hnext] at hdue
    exact .again hrepeats hdue h

theorem Schedule.expired {t : Timer} {times : List Int} (h : Schedule t times) : ∀ now ∈ times, t.expiration ≤ now := by
  induction h with
  | none => simp
  | first hle => simpa using hle
  | @again now last times hrepeats hle _ ih =>
    have hpos : 0 < t.interval := of_decide_eq_true hrepeats
    have hlast := ih last List.mem_cons_self
    refine List.forall_mem_cons.mpr ⟨?_, ih⟩
    omega

theorem Schedule.spaced {t : Timer} {times : List Int} (h : Schedule t times) :
    times.Pairwise fun later earlier => earlier + t.interval ≤ later := by
  induction h with
  | none => exact .nil
  | first => exact List.pairwise_singleton _ _
  | @again now last times hrepeats hle _ ih =>
    have hpos : 0 < t.interval := of_decide_eq_true hrepeats
    refine List.pairwise_cons.mpr ⟨List.forall_mem_cons.mpr ⟨hle, ?_⟩, ih⟩
    intro earlier hmem
    have := (List.pairwise_cons.mp ih).1 earlier hmem
    omega

theorem Schedule.once {t : Timer} {times : List Int} (h : Schedule t times) (hnot : t.repeats = false) :
    times.length ≤ 1 := by
  cases h with
  | none => exact Nat.zero_le _
  | first => exact Nat.le_refl _
  | again hrepeats => cases hnot.symm.trans hrepeats

/-! ## What every step keeps -/

/-- The callbacks have run as the timers were made, and each timer that is owned waits for its next turn, unless it has
had its turn in the batch that is running. -/
structure Scheduled (s : TimerHistory) : Prop where
  created_le : ∀ t ∈ s.created, t.sequence ≤ s.loop.numCreated
  known : ∀ n, (s.loop.queue.timerOwners n).isSome → ∃ t ∈ s.created, t.sequence = n
  fired : ∀ p ∈ s.fired, ∃ t ∈ s.created, t.sequence = p.1
  schedule : ∀ t ∈ s.created, Schedule t (s.times t.sequence)
  toAdd : ∀ t ∈ s.loop.toAdd, t ∈ s.created ∧ s.times t.sequence = [] ∧
    ∀ u ∈ s.created, u.sequence = t.sequence → u = t
  interval : ∀ n t', s.loop.queue.timerOwners n = some t' → ∀ t ∈ s.created, t.sequence = n → t'.interval = t.interval
  awaits : ∀ n t', s.loop.queue.timerOwners n = some t' →
    (n ∈ s.loop.queue.batch.map (·.sequence) → n ∈ s.loop.queue.waiting.map (·.sequence)) →
    ∀ t ∈ s.created, t.sequence = n → Awaits t t' (s.times n)
  waiting : s.loop.queue.waiting <:+ s.loop.queue.batch
  due : ∀ e ∈ s.loop.queue.waiting, ∀ t', s.loop.queue.timerOwners e.sequence = some t' → t'.expiration ≤ s.now
  done : ∀ e ∈ s.loop.queue.batch, e.sequence ∉ s.loop.queue.waiting.map (·.sequence) →
    ∃ rest, s.times e.sequence = s.now :: rest

section
variable {s : TimerHistory} {t : Timer} {n now clock expiration interval : Int} {e : Entry} {rest : List Entry}

theorem times_nil (h : Scheduled s) (hlt : s.loop.numCreated < n) : s.times n = [] := by
  rw [times, List.map_eq_nil_iff, List.filter_eq_nil_iff]
  intro p hp heq
  obtain ⟨t, ht, hseq⟩ := h.fired p hp
  have hle := h.created_le t ht
  have : p.1 = n := of_decide_eq_true heq
  omega

theorem times_fire : (s.fire n).times n = s.now :: s.times n := by simp [times, fire]

theorem times_fire_of_ne {m : Int} (h : m ≠ n) : (s.fire n).times m = s.times m := by
  simp [times, fire, Ne.symm h]

/-- Owners may go, and timers that are still to be added. -/
theorem Scheduled.shrink {l : TimerLoop} (h : Scheduled s)
    (howners : ∀ n t', l.queue.timerOwners n = some t' → s.loop.queue.timerOwners n = some t')
    (hbatch : l.queue.batch = s.loop.queue.batch) (hwaiting : l.queue.waiting = s.loop.queue.waiting)
    (hcount : l.numCreated = s.loop.numCreated) (htoAdd : ∀ t ∈ l.toAdd, t ∈ s.loop.toAdd) :
    Scheduled { s with loop := l } where
  created_le := hcount ▸ h.created_le
  known n hn := by
    obtain ⟨t', ht'⟩ := Option.isSome_iff_exists.mp hn
    exact h.known n (Option.isSome_of_eq_some (howners n t' ht'))
  fired := h.fired
  schedule := h.schedule
  toAdd t ht := h.toAdd t (htoAdd t ht)
  interval n t' ht' := h.interval n t' (howners n t' ht')
  awaits n t' ht' hturn := h.awaits n t' (howners n t' ht') (by rwa [hbatch, hwaiting] at hturn)
  waiting := by
    rw [hbatch, hwaiting]
    exact h.waiting
  due e he t' ht' := h.due e (hwaiting ▸ he) t' (howners _ t' ht')
  done e he hnot := h.done e (hbatch ▸ he) (hwaiting ▸ hnot)

theorem Scheduled.relog (h : Scheduled s) (log : List TimerEvent) :
    Scheduled { s with loop := { s.loop with log := log } } :=
  h.shrink (fun _ _ ht => ht) rfl rfl rfl fun _ hu => hu

/-- `addTimer` makes a timer. -/
theorem Scheduled.create {l : TimerLoop} (h : Scheduled s) (hinv : s.loop.Inv) (hqueue : l.queue = s.loop.queue)
    (hcount : l.numCreated = s.loop.numCreated + 1) (ht : t.sequence = s.loop.numCreated + 1)
    (htoAdd : ∀ u ∈ l.toAdd, u ∈ s.loop.toAdd ∨ u = t) :
    Scheduled { s with loop := l, created := t :: s.created } where
  created_le := by
    simp only [hcount]
    refine List.forall_mem_cons.mpr ⟨by omega, fun u hu => ?_⟩
    have := h.created_le u hu
    omega
  known n hn := by
    obtain ⟨u, hu, hseq⟩ := h.known n (hqueue ▸ hn)
    exact ⟨u, List.mem_cons_of_mem _ hu, hseq⟩
  fired p hp := by
    obtain ⟨u, hu, hseq⟩ := h.fired p hp
    exact ⟨u, List.mem_cons_of_mem _ hu, hseq⟩
  schedule := by
    refine List.forall_mem_cons.mpr ⟨?_, h.schedule⟩
    have hnil : s.times t.sequence = [] := times_nil h (by omega)
    exact (congrArg (Schedule t) hnil).mpr .none
  toAdd u hu := by
    rcases htoAdd u hu with hold | rfl
    · obtain ⟨hmem, hnil, huniq⟩ := h.toAdd u hold
      refine ⟨List.mem_cons_of_mem _ hmem, hnil, List.forall_mem_cons.mpr ⟨fun heq => ?_, huniq⟩⟩
      have := (hinv.fresh u hold).1
      omega
    · have hnil : s.times u.sequence = [] := times_nil h (by omega)
      refine ⟨List.mem_cons_self, hnil, List.forall_mem_cons.mpr ⟨fun _ => rfl, fun v hv heq => ?_⟩⟩
      have := h.created_le v hv
      omega
  interval n t' ht' := by
    have howner : s.loop.queue.timerOwners n = some t' := hqueue ▸ ht'
    refine List.forall_mem_cons.mpr ⟨fun hseq => ?_, h.interval n t' howner⟩
    have := hinv.owned n (Option.isSome_of_eq_some howner)
    omega
  awaits n t' ht' hturn := by
    have howner : s.loop.queue.timerOwners n = some t' := hqueue ▸ ht'
    refine List.forall_mem_cons.mpr ⟨fun hseq => ?_, h.awaits n t' howner (hqueue ▸ hturn)⟩
    have := hinv.owned n (Option.isSome_of_eq_some howner)
    omega
  waiting := hqueue ▸ h.waiting
  due e he t' ht' := h.due e (hqueue ▸ he) t' (hqueue ▸ ht')
  done e he hnot := h.done e (hqueue ▸ he) (hqueue ▸ hnot)

/-- A timer that was made comes into the queue. -/
theorem Scheduled.own {l : TimerLoop} (h : Scheduled s) (ht : t ∈ s.created) (hnil : s.times t.sequence = [])
    (huniq : ∀ u ∈ s.created, u.sequence = t.sequence → u = t)
    (hnot : t.sequence ∉ s.loop.queue.batch.map (·.sequence))
    (howners : l.queue.timerOwners = fun n => if n = t.sequence then some t else s.loop.queue.timerOwners n)
    (hbatch : l.queue.batch = s.loop.queue.batch) (hwaiting : l.queue.waiting = s.loop.queue.waiting)
    (hcount : l.numCreated = s.loop.numCreated) (htoAdd : ∀ t ∈ l.toAdd, t ∈ s.loop.toAdd) :
    Scheduled { s with loop := l } := by
  have hcases : ∀ {n t'}, l.queue.timerOwners n = some t' →
      n = t.sequence ∧ t' = t ∨ n ≠ t.sequence ∧ s.loop.queue.timerOwners n = some t' := by
    intro n t' ht'
    simp only [howners] at ht'
    split at ht'
    · rename_i heq
      exact .inl ⟨heq, (Option.some.inj ht').symm⟩
    · rename_i hne
      exact .inr ⟨hne, ht'⟩
  refine ⟨hcount ▸ h.created_le, ?_, h.fired, h.schedule, fun u hu => h.toAdd u (htoAdd u hu), ?_, ?_, ?_, ?_, ?_⟩
  · intro n hn
    obtain ⟨t', ht'⟩ := Option.isSome_iff_exists.mp hn
    rcases hcases ht' with ⟨rfl, -⟩ | ⟨-, hold⟩
    · exact ⟨t, ht, rfl⟩
    · exact h.known n (Option.isSome_of_eq_some hold)
  · intro n t' ht' u hu hseq
    rcases hcases ht' with ⟨rfl, rfl⟩ | ⟨-, hold⟩
    · rw [huniq u hu hseq]
    · exact h.interval n t' hold u hu hseq
  · intro n t' ht' hturn u hu hseq
    rcases hcases ht' with ⟨rfl, rfl⟩ | ⟨-, hold⟩
    · have htimes : times { s with loop := l } t'.sequence = [] := hnil
      rw [htimes, huniq u hu hseq]
      rfl
    · exact h.awaits n t' hold (by rwa [hbatch, hwaiting] at hturn) u hu hseq
  · rw [hbatch, hwaiting]
    exact h.waiting
  · intro e he t' ht'
    have he' : e ∈ s.loop.queue.waiting := hwaiting ▸ he
    rcases hcases ht' with ⟨heq, -⟩ | ⟨-, hold⟩
    · exact absurd (heq ▸ List.mem_map_of_mem (h.waiting.subset he')) hnot
    · exact h.due e he' t' hold
  · intro e he hnot'
    exact h.done e (hbatch ▸ he) (hwaiting ▸ hnot')

theorem not_mem_batch (hinv : s.loop.Inv) (hnone : s.loop.queue.timerOwners n = none) :
    n ∉ s.loop.queue.batch.map (·.sequence) := by
  intro hmem
  have hsome := (hinv.rep.keys n).mpr (.inr hmem)
  rw [hnone] at hsome
  exact absurd hsome Bool.false_ne_true

theorem Scheduled.addTimerInLoop (h : Scheduled s) (clock : Int) (hinv : s.loop.Inv) (ht : t ∈ s.created)
    (hnil : s.times t.sequence = []) (huniq : ∀ u ∈ s.created, u.sequence = t.sequence → u = t)
    (hnone : s.loop.queue.timerOwners t.sequence = none) :
    Scheduled (s.onLoop (TimerLoop.addTimerInLoop t clock)) := by
  obtain ⟨fd, armedAt, heq, -⟩ : ∃ fd armedAt,
      s.loop.queue.addTimerInLoop t clock = { s.loop.queue.added t with timerfd := fd, armedAt := armedAt } ∧ _ :=
    hinv.rep.addTimerInLoop hnone
  refine h.own ht hnil huniq (not_mem_batch hinv hnone) ?_ ?_ ?_ rfl fun _ hu => hu
  all_goals
    simp only [TimerLoop.addTimerInLoop, heq]
    rfl

theorem Scheduled.addTimer (h : Scheduled s) (hinv : s.loop.Inv) :
    Scheduled (s.perform (.addTimer expiration interval clock)) := by
  have hnew : Scheduled
      { s with
        loop := { s.loop with numCreated := s.loop.numCreated + 1 }
        created := s.loop.newTimer expiration interval :: s.created } :=
    h.create hinv rfl rfl rfl fun u hu => .inl hu
  have hinv' : TimerLoop.Inv { s.loop with numCreated := s.loop.numCreated + 1 } :=
    hinv.of_toAdd rfl (Int.le_of_lt (Int.lt_succ _)) hinv.nodup fun _ ht => .inl ht
  have hlt : s.loop.numCreated < s.loop.numCreated + 1 := by omega
  have hnil : s.times (s.loop.newTimer expiration interval).sequence = [] := times_nil h hlt
  have hadded := hnew.addTimerInLoop (t := s.loop.newTimer expiration interval) clock hinv' List.mem_cons_self hnil
    (List.forall_mem_cons.mpr ⟨fun _ => rfl, fun u hu heq => by
      have := h.created_le u hu
      simp only [TimerLoop.newTimer] at heq
      omega⟩)
    (hinv.not_owned hlt)
  exact hadded.relog _

theorem Scheduled.cancelInLoop (h : Scheduled s) (hinv : s.loop.Inv) :
    Scheduled (s.onLoop (TimerLoop.cancelInLoop n)) := by
  have hsame := (hinv.cancelInLoop (n := n)).2
  refine h.shrink ?_ hsame.1 hsame.2.1 rfl fun _ hu => hu
  intro m t' ht'
  simp only [TimerLoop.cancelInLoop] at ht'
  rcases hinv.rep.cancelInLoop_cases (n := n) with ⟨t, -, -, heq⟩ | ⟨-, heq⟩ | ⟨-, heq⟩
  · rw [heq] at ht'
    simp only [removed, eraseOwner] at ht'
    split at ht'
    · cases ht'
    · exact ht'
  · rw [heq] at ht'
    exact ht'
  · rwa [heq] at ht'

theorem Scheduled.perform (h : Scheduled s) (hinv : s.loop.Inv) (op : Op) : Scheduled (s.perform op) := by
  cases op with
  | addTimer expiration interval clock => exact h.addTimer hinv
  | cancel n => exact h.cancelInLoop hinv
  | createElsewhere expiration interval =>
    refine h.create hinv rfl rfl rfl fun u hu => ?_
    simp only [TimerLoop.perform, TimerLoop.createElsewhere, TimerLoop.toAdd, List.mem_append, List.mem_singleton] at hu ⊢
    rcases hu with (hhand | hnew) | hpending
    · exact .inl (.inl hhand)
    · exact .inr hnew
    · exact .inl (.inr hpending)
  | queueElsewhere t =>
    by_cases hmem : t ∈ s.loop.inHand
    · have hperm := TimerLoop.toAdd_queueElsewhere hmem
      refine h.shrink ?_ ?_ ?_ ?_ fun u hu => hperm.mem_iff.mp hu
      all_goals simp only [TimerLoop.perform, TimerLoop.queueElsewhere, if_pos hmem]
      exact fun _ _ ht => ht
    · have hsame : TimerLoop.queueElsewhere t s.loop = s.loop := by rw [TimerLoop.queueElsewhere, if_neg hmem]
      simp only [TimerHistory.perform, TimerLoop.perform, hsame]
      exact h
  | cancelElsewhere n =>
    refine h.shrink (fun _ _ ht => ht) rfl rfl rfl fun u hu => ?_
    simpa [TimerLoop.perform, TimerLoop.cancelElsewhere, TimerLoop.toAdd, TimerFunctor.timer?] using hu

theorem Scheduled.runFunctor (h : Scheduled s) (hinv : s.loop.Inv) : Scheduled (s.onLoop (TimerLoop.runFunctor clock)) := by
  unfold onLoop TimerLoop.runFunctor
  split
  case h_1 => exact h
  case h_2 t rest hpending =>
    have hperm := TimerLoop.toAdd_cons hpending
    obtain ⟨ht, hnil, huniq⟩ := h.toAdd t (hperm.mem_iff.mpr List.mem_cons_self)
    have hpopped : Scheduled { s with loop := { s.loop with pendingFunctors := rest } } :=
      h.shrink (fun _ _ ht => ht) rfl rfl rfl fun u hu => hperm.mem_iff.mpr (List.mem_append_right _ hu)
    exact hpopped.addTimerInLoop clock (hinv.popFunctor hpending) ht hnil huniq (hinv.head_fresh hpending).2.1
  case h_3 n rest hpending =>
    have hperm := TimerLoop.toAdd_cons hpending
    have hpopped : Scheduled { s with loop := { s.loop with pendingFunctors := rest } } :=
      h.shrink (fun _ _ ht => ht) rfl rfl rfl fun u hu => hperm.mem_iff.mpr (List.mem_append_right _ hu)
    exact hpopped.cancelInLoop (hinv.popFunctor hpending)

/-! ## The batch -/

/-- The expired timers are taken out, and all of them have their turn before them. -/
theorem Scheduled.batch {l : TimerLoop} (h : Scheduled s) (hinv : s.loop.Inv) (hidle : s.loop.queue.batch = [])
    (howners : l.queue.timerOwners = s.loop.queue.timerOwners) (hbatch : l.queue.batch = s.loop.queue.expiredEntries now)
    (hwaiting : l.queue.waiting = s.loop.queue.expiredEntries now) (hcount : l.numCreated = s.loop.numCreated)
    (htoAdd : l.toAdd = s.loop.toAdd) : Scheduled { s with loop := l, now := now } where
  created_le := hcount ▸ h.created_le
  known n hn := h.known n (congrFun howners n ▸ hn)
  fired := h.fired
  schedule := h.schedule
  toAdd t ht := h.toAdd t (htoAdd ▸ ht)
  interval n t' ht' := h.interval n t' ((congrFun howners n).symm.trans ht')
  awaits n t' ht' _ := h.awaits n t' ((congrFun howners n).symm.trans ht') (by simp [hidle])
  waiting := (hwaiting.trans hbatch.symm) ▸ List.suffix_rfl
  due e he t' ht' := by
    rw [hwaiting] at he
    obtain ⟨hmem, hle⟩ := OrderedSet.mem_upTo.mp he
    obtain ⟨-, t, ht, hexp⟩ := (hinv.rep.timers e).mp hmem
    have howner := ((congrFun howners e.sequence).symm.trans ht').symm.trans ht
    rw [Option.some.inj howner, hexp]
    exact Entry.expiration_le hle
  done e he hnot := by
    rw [hbatch, ← hwaiting] at he
    exact absurd (List.mem_map_of_mem he) hnot

theorem Scheduled.begin (h : Scheduled s) (hinv : s.loop.Inv) (hbatch : s.loop.queue.batch = []) :
    Scheduled ((s.readClock now).onLoop (TimerLoop.beginExpired now)) :=
  h.batch hinv hbatch (hinv.timerOwners_beginExpired hbatch) rfl rfl rfl rfl

/-- The turn of a timer of the batch comes. -/
theorem Scheduled.turn (h : Scheduled s) (hinv : s.loop.Inv) (hwaiting : s.loop.queue.waiting = e :: rest) :
    Scheduled ((s.onLoop fun l => (l.takeNext rest).start e.sequence).fire e.sequence) := by
  have hsuffix : e :: rest <:+ s.loop.queue.batch := hwaiting ▸ h.waiting
  have hmem : e ∈ s.loop.queue.batch := hsuffix.subset List.mem_cons_self
  have hbatch : e.sequence ∈ s.loop.queue.batch.map (·.sequence) := List.mem_map_of_mem hmem
  have hwaits : e.sequence ∈ s.loop.queue.waiting.map (·.sequence) := by simp [hwaiting]
  have hrest : e.sequence ∉ rest.map (·.sequence) :=
    (List.nodup_cons.mp (hinv.rep.nodup.sublist (hsuffix.sublist.map _))).1
  have howned : (s.loop.queue.timerOwners e.sequence).isSome := (hinv.rep.keys _).mpr (.inr hbatch)
  obtain ⟨t', ht'⟩ := Option.isSome_iff_exists.mp howned
  have hother : ∀ m ≠ e.sequence, times ((s.onLoop fun l => (l.takeNext rest).start e.sequence).fire e.sequence) m =
      s.times m := fun m hm => times_fire_of_ne hm
  refine ⟨h.created_le, h.known, ?_, ?_, ?_, h.interval, ?_, ?_, ?_, ?_⟩
  · exact List.forall_mem_cons.mpr ⟨h.known _ howned, h.fired⟩
  · intro t ht
    by_cases heq : t.sequence = e.sequence
    · have hnext := (h.schedule t ht).next (heq ▸ h.awaits _ t' ht' (fun _ => hwaits) t ht heq)
        (h.due e (by simp [hwaiting]) t' ht')
      rw [heq, times_fire]
      rw [heq] at hnext
      exact hnext
    · rw [hother _ heq]
      exact h.schedule t ht
  · intro t ht
    obtain ⟨hcreated, hnil, huniq⟩ := h.toAdd t ht
    refine ⟨hcreated, ?_, huniq⟩
    rw [hother _ fun heq => ?_, hnil]
    cases ht'.symm.trans (heq ▸ (hinv.fresh t ht).2)
  · intro n u hu hturn t ht hseq
    have hne : n ≠ e.sequence := fun heq => hrest (heq ▸ hturn (heq ▸ hbatch))
    rw [hother n hne]
    refine h.awaits n u hu (fun hn => ?_) t ht hseq
    rw [hwaiting]
    exact List.mem_cons_of_mem _ (hturn hn)
  · exact (List.suffix_cons e rest).trans hsuffix
  · intro f hf
    exact h.due f (by rw [hwaiting]; exact List.mem_cons_of_mem _ hf)
  · intro f hf hnot
    by_cases heq : f.sequence = e.sequence
    · exact ⟨s.times e.sequence, by rw [heq, times_fire]; rfl⟩
    · rw [hother _ heq]
      refine h.done f hf ?_
      rw [hwaiting, List.map_cons, List.mem_cons, not_or]
      exact ⟨heq, hnot⟩

/-- All turns are over, and the batch is reset. -/
theorem Scheduled.finish (h : Scheduled s) (hinv : s.loop.Inv) (hwaiting : s.loop.queue.waiting = []) :
    Scheduled (s.onLoop (TimerLoop.endExpired s.loop.queue.batch s.now clock)) := by
  have hrep : Rep { s.loop.queue with callingExpiredTimers := false } s.loop.queue.batch :=
    hinv.rep.of_eq rfl rfl rfl rfl
  have hsched : Rescheduled s.now s.loop.queue.batch { s.loop.queue with callingExpiredTimers := false } _ := hrep.rescheduled
  -- What the owners are: restarted timers of the batch, and timers that were not in it.
  have hcases : ∀ {n t'}, (TimerLoop.endExpired s.loop.queue.batch s.now clock s.loop).queue.timerOwners n = some t' →
      (n ∈ s.loop.queue.batch.map (·.sequence) ∧ ∃ t, s.loop.queue.timerOwners n = some t ∧ t.repeats = true ∧
        t' = ⟨s.now + t.interval, t.interval, n⟩) ∨
      n ∉ s.loop.queue.batch.map (·.sequence) ∧ s.loop.queue.timerOwners n = some t' := by
    intro n t' ht'
    simp only [TimerLoop.endExpired, timerOwners_reset] at ht'
    by_cases hn : n ∈ s.loop.queue.batch.map (·.sequence)
    · obtain ⟨b, hb, rfl⟩ := List.mem_map.mp hn
      obtain ⟨t, ht⟩ := Option.isSome_iff_exists.mp ((hinv.rep.keys _).mpr (.inr hn))
      rw [hsched.batchOwners b hb t ht] at ht'
      split at ht'
      · rename_i hrepeats
        exact .inl ⟨hn, t, ht, hrepeats.1, (Option.some.inj ht').symm⟩
      · cases ht'
    · rw [hsched.owners n hn] at ht'
      exact .inr ⟨hn, ht'⟩
  refine ⟨h.created_le, ?_, h.fired, h.schedule, h.toAdd, ?_, ?_, List.suffix_rfl, ?_, ?_⟩
  · intro n hn
    obtain ⟨t', ht'⟩ := Option.isSome_iff_exists.mp hn
    rcases hcases ht' with ⟨-, t, ht, -, -⟩ | ⟨-, ht⟩ <;> exact h.known n (Option.isSome_of_eq_some ht)
  · intro n t' ht' u hu hseq
    rcases hcases ht' with ⟨-, t, ht, -, rfl⟩ | ⟨-, ht⟩
    · exact h.interval n t ht u hu hseq
    · exact h.interval n t' ht u hu hseq
  · intro n t' ht' _ u hu hseq
    rcases hcases ht' with ⟨hn, t, ht, hrepeats, rfl⟩ | ⟨hn, ht⟩
    · -- The timer has had its turn, at the time from which it is restarted.
      obtain ⟨b, hb, rfl⟩ := List.mem_map.mp hn
      obtain ⟨earlier, htimes⟩ := h.done b hb (by simp [hwaiting])
      have hinterval := h.interval _ t ht u hu hseq
      have hlast : times (s.onLoop (TimerLoop.endExpired s.loop.queue.batch s.now clock)) b.sequence = s.now :: earlier :=
        htimes
      rw [hlast]
      refine ⟨?_, by rw [hinterval]⟩
      rw [Timer.repeats, ← hinterval]
      exact hrepeats
    · exact h.awaits n t' ht (fun hmem => absurd hmem hn) u hu hseq
  · intro e he
    cases he
  · intro e he
    cases he

/-! ## Runs -/

/-- The invariant of the points where user code is in control. -/
def Within (s : TimerHistory) : Prop := s.loop.Inv ∧ Scheduled s

/-- The invariant of the points where no callback runs. -/
def Between (s : TimerHistory) : Prop := Within s ∧ s.loop.queue.batch = []

/-- What user code in a callback leaves alone. -/
def SameTurn (s t : TimerHistory) : Prop := TimerLoop.SameBatch s.loop t.loop ∧ t.now = s.now

theorem wp_runExpired {expired : List Entry} (h : Within s) (hwaiting : s.loop.queue.waiting = expired) :
    (noted (TimerLoop.runExpired expired)).wp Within SameTurn
      (fun _ t => Within t ∧ t.loop.queue.waiting = [] ∧ t.loop.queue.batch = s.loop.queue.batch ∧ t.now = s.now) s := by
  -- Each turn takes the head of the waiting entries, and its callback leaves the rest of them alone.
  induction expired generalizing s with
  | nil => exact ⟨h, hwaiting, rfl, rfl⟩
  | cons e rest ih =>
    have hturn := h.2.turn h.1 hwaiting
    have htake : TimerLoop.Inv (s.loop.takeNext rest) :=
      h.1.setQueue (h.1.rep.of_eq rfl rfl rfl rfl) h.1.idle fun _ hn => hn
    have hmem : e ∈ s.loop.queue.batch := h.2.waiting.subset (by simp [hwaiting])
    have howned : (s.loop.queue.timerOwners e.sequence).isSome :=
      (h.1.rep.keys _).mpr (.inr (List.mem_map_of_mem hmem))
    simp only [noted, TimerLoop.runExpired, Code.handle_bind, Code.handle_get, Code.handle_modify, Code.handle_ite,
      Code.handle_callback, Code.wp_bind, Code.wp_get, Code.wp_modify, Code.wp_pure, howned, if_true, Code.wp_callback]
    refine ⟨⟨htake.setLog _, hturn⟩, fun t ht hsame => ?_⟩
    refine Code.wp_mono (fun _ u hu => ?_) (ih ht hsame.1.2.1)
    exact ⟨hu.1, hu.2.1, hu.2.2.1.trans hsame.1.1, hu.2.2.2.trans hsame.2⟩

theorem wp_handleRead (h : Between s) : (top (.handleRead now clock)).wp Within SameTurn (fun _ t => Between t) s := by
  have hbegin : Within ((s.readClock now).onLoop (TimerLoop.beginExpired now)) :=
    ⟨h.1.1.beginExpired h.2, h.1.2.begin h.1.1 h.2⟩
  simp only [top, noted, TimerLoop.handleRead, Code.handle_bind, Code.handle_get, Code.handle_modify, Code.wp_bind,
    Code.wp_get, Code.wp_modify, Code.wp_pure]
  refine Code.wp_mono (fun _ t ht => ?_) (wp_runExpired hbegin rfl)
  obtain ⟨⟨hinv, hsched⟩, hwaiting, hbatch, hnow⟩ := ht
  have hnow' : now = t.now := hnow.symm
  have hbatch' : (s.readClock now).loop.queue.expiredEntries now = t.loop.queue.batch := hbatch.symm
  rw [hbatch', hnow']
  exact ⟨⟨hinv.endExpired, hsched.finish hinv hwaiting⟩, rfl⟩

theorem keeps : system.Keeps ⟨fun _ _ => True, fun _ _ => True⟩ Within Between SameTurn where
  refl s := ⟨.refl _, rfl⟩
  trans h h' := ⟨h.1.trans h'.1, h'.2.trans h.2⟩
  inner h := h.1
  outer h ht hsame := ⟨ht, hsame.1.1.trans h.2⟩
  api h _ := ⟨⟨h.1.perform.1, h.2.perform h.1 _⟩, h.1.perform.2, rfl⟩
  top := by
    intro t s h _ _
    cases t with
    | handleRead now clock => exact wp_handleRead h
    | runFunctor clock =>
      obtain ⟨hinv, hsame⟩ : TimerLoop.Inv (TimerLoop.runFunctor clock _) ∧ _ := h.1.1.runFunctor
      exact ⟨⟨hinv, h.1.2.runFunctor h.1.1⟩, hsame.1.trans h.2⟩

theorem between_empty : Between {} := by
  refine ⟨⟨(TimerLoop.Between.empty (K := fun _ => True) trivial).1.1, ?_⟩, rfl⟩
  constructor <;> simp [TimerLoop.toAdd]

end

/-- In every run, with callbacks that add and cancel timers and with timers of other threads, whatever the clock reads:
only timers that were made run, none of them before it expires, two runs of one are an interval apart, and one that
does not repeat runs once at most. -/
theorem timers_run_on_schedule {es : List (Reentrant.Event Op Top)} {c : Config TimerHistory Int}
    (h : system.stepper.Run (fun _ _ => True) ⟨{}, []⟩ es c) :
    (∀ p ∈ c.state.fired, ∃ t ∈ c.state.created, t.sequence = p.1) ∧
      ∀ t ∈ c.state.created, (∀ now ∈ c.state.times t.sequence, t.expiration ≤ now) ∧
        (c.state.times t.sequence).Pairwise (fun later earlier => earlier + t.interval ≤ later) ∧
        (t.repeats = false → (c.state.times t.sequence).length ≤ 1) := by
  obtain ⟨⟨-, hsched⟩, -⟩ := keeps.run between_empty (h.mono fun _ e _ => by cases e <;> trivial)
  refine ⟨hsched.fired, fun t ht => ?_⟩
  have hschedule := hsched.schedule t ht
  exact ⟨hschedule.expired, hschedule.spaced, hschedule.once⟩

/-- A repeating timer that is late comes again an interval after it ran, and not after it was due. -/
theorem timers_run_on_schedule_late :
    ∃ c, system.stepper.Run (fun _ _ => True) ⟨{}, []⟩
        [.call (.addTimer 10 0 0), .call (.addTimer 20 5 0), .top (.handleRead 23 24), .call (.addTimer 15 0 24), .ret,
          .ret, .top (.handleRead 27 28), .ret, .top (.handleRead 28 29), .ret] c ∧
      c.state.times 2 = [28, 23] ∧ c.state.times 3 = [27] ∧ (⟨20, 5, 2⟩ : Timer) ∈ c.state.created ∧
      (c.state.times 2).Pairwise (fun later earlier => earlier + 5 ≤ later) := by
  refine Stepper.Run.replay rfl fun run => ⟨rfl, rfl, ?_, ?_⟩
  · exact List.mem_cons_of_mem _ List.mem_cons_self
  · exact ((timers_run_on_schedule run).2 ⟨20, 5, 2⟩ (List.mem_cons_of_mem _ List.mem_cons_self)).2.1

end TimerHistory
end Muduo
