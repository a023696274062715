import Muduo.Lib.Trailing
import Muduo.Theorems.ConnectionAttempts
import Muduo.TimedConnector

/-! # The pace of the attempts

A connector whose attempts fail waits before the next one, each time twice as long up to a bound. Each event of the loop
begins at most one attempt and sets at most one retry timer, which is what `Paced` says; the timers that have fired then
account for the time that has passed, also when the owner stops and starts the connector in between, since `start` leaves
the delay as it is. -/

namespace Muduo
open Lib

/-! ## The schedule -/

/-- The delay before the retry with number `n`, in milliseconds. -/
def retryDelay (n : Nat) : Nat := min (ConnectorSite.kInitRetryDelayMs * 2 ^ n) ConnectorSite.kMaxRetryDelayMs

/-- The delays before the first `n` retries together. -/
def scheduled : Nat → Nat
  | 0 => 0
  | n + 1 => scheduled n + retryDelay n

theorem retryDelay_succ (n : Nat) :
    retryDelay (n + 1) = min (retryDelay n * 2) ConnectorSite.kMaxRetryDelayMs := by
  unfold retryDelay ConnectorSite.kInitRetryDelayMs ConnectorSite.kMaxRetryDelayMs
  rw [Nat.pow_succ]
  omega

/-- From the seventh on, the delay is the longest. -/
theorem retryDelay_add_six (n : Nat) : retryDelay (n + 6) = ConnectorSite.kMaxRetryDelayMs := by
  have hpos : 0 < 2 ^ n := Nat.two_pow_pos n
  unfold retryDelay ConnectorSite.kInitRetryDelayMs ConnectorSite.kMaxRetryDelayMs
  rw [Nat.pow_add]
  omega

theorem le_scheduled_add_six (n : Nat) : n * ConnectorSite.kMaxRetryDelayMs ≤ scheduled (n + 6) := by
  induction n with
  | zero =>
    rw [Nat.zero_mul]
    exact Nat.zero_le _
  | succ n ih =>
    rw [Nat.succ_mul]
    calc n * ConnectorSite.kMaxRetryDelayMs + ConnectorSite.kMaxRetryDelayMs
        ≤ scheduled (n + 6) + retryDelay (n + 6) := by
          rw [retryDelay_add_six]
          exact Nat.add_le_add_right ih _
      _ = scheduled (n + 6 + 1) := rfl
      _ = scheduled (n + 1 + 6) := by rw [Nat.add_right_comm]

/-- Beyond six, there is one retry in each span of the longest delay. -/
theorem le_of_scheduled {n ms : Nat} (h : scheduled n ≤ ms) : n ≤ 6 + ms / ConnectorSite.kMaxRetryDelayMs := by
  by_cases hn : n ≤ 6
  · exact Nat.le_trans hn (Nat.le_add_right _ _)
  · obtain ⟨k, rfl⟩ : ∃ k, n = k + 6 := ⟨n - 6, by omega⟩
    rw [Nat.add_comm]
    refine Nat.add_le_add_left ((Nat.le_div_iff_mul_le (by decide)).mpr ?_) 6
    exact Nat.le_trans (le_scheduled_add_six k) h

/-! ## What the functions do to the pace -/

def SocketEvent.isCreated : SocketEvent → Bool
  | .created _ => true
  | .closed _ | .passed _ => false

namespace Connector

/-- How many sockets were made. -/
def created (c : Connector) : Nat := c.sockets.countP SocketEvent.isCreated

def pace (c : Connector) : Nat × List Nat × Nat := (c.created, c.retryTimers, c.retryDelayMs)

theorem eq_of_pace {c d : Connector} (h : d.pace = c.pace) :
    d.created = c.created ∧ d.retryTimers = c.retryTimers ∧ d.retryDelayMs = c.retryDelayMs := by
  obtain ⟨hcreated, hrest⟩ := Prod.mk.inj h
  exact ⟨hcreated, Prod.mk.inj hrest⟩

end Connector

theorem SameAttempt.pace {c d : Connector} (h : SameAttempt c d) : d.pace = c.pace := by
  simp only [Connector.pace, Connector.created, h.sockets, h.timers, h.delay]

namespace ConnectorSite
variable {s : ConnectorSite} {fd : Nat} {b : Bool} {x : ConnectorAssert}

theorem pace_assertThat : (s.assertThat x b).connector.pace = s.connector.pace := by
  unfold assertThat
  split <;> rfl

theorem pace_connecting : (s.connecting fd).connector.pace = s.connector.pace := by
  have hchannel := (SameAttempt.assertThat (s := s.setState .kConnecting) (b := s.connector.channel.isNone)
    (x := .connectingNoChannel) (by decide)).trans SameAttempt.destroyChannel
  exact (SameAttempt.onChannel fun _ _ => rfl).pace.trans hchannel.pace

theorem pace_stopInLoop : s.stopInLoop.connector.pace = s.connector.pace := by
  unfold stopInLoop
  split
  · exact (SameAttempt.removeAndResetChannel (s := s.setState .kDisconnected)).pace
  · rfl

end ConnectorSite

/-- At most `n` attempts are begun, and at most one retry timer is set, with the delay that the connector has reached. -/
structure Paced (n : Nat) (c d : Connector) : Prop where
  created : d.created ≤ c.created + n
  timer : d.retryTimers = c.retryTimers ∧ d.retryDelayMs = c.retryDelayMs ∨
    d.retryTimers = c.retryTimers ++ [c.retryDelayMs] ∧
      d.retryDelayMs = min (c.retryDelayMs * 2) ConnectorSite.kMaxRetryDelayMs

namespace Paced
variable {s : ConnectorSite} {c d e : Connector} {n fd : Nat}

theorem of_pace (h : d.pace = c.pace) : Paced n c d := by
  obtain ⟨hcreated, htimers, hdelay⟩ := Connector.eq_of_pace h
  exact ⟨hcreated ▸ Nat.le_add_right _ _, .inl ⟨htimers, hdelay⟩⟩

theorem of_pace_trans (h : d.pace = c.pace) (h' : Paced n d e) : Paced n c e := by
  obtain ⟨hcreated, htimers, hdelay⟩ := Connector.eq_of_pace h
  refine ⟨hcreated ▸ h'.created, ?_⟩
  rw [← htimers, ← hdelay]
  exact h'.timer

theorem trans_of_pace (h : Paced n c d) (h' : e.pace = d.pace) : Paced n c e := by
  obtain ⟨hcreated, htimers, hdelay⟩ := Connector.eq_of_pace h'
  refine ⟨hcreated ▸ h.created, ?_⟩
  rw [htimers, hdelay]
  exact h.timer

theorem retry : Paced 0 s.connector (s.retry fd).connector := by
  unfold ConnectorSite.retry
  dsimp only
  split
  · exact ⟨Nat.le_refl _, .inr ⟨rfl, rfl⟩⟩
  · exact of_pace rfl

/-- A new socket is one more attempt. -/
theorem of_created (fd : Nat) (h : Paced 0 (s.socketEvent (.created fd)).connector d) : Paced 1 s.connector d where
  created := by
    have hcount : (s.socketEvent (.created fd)).connector.created = s.connector.created + 1 :=
      List.countP_cons_of_pos rfl
    exact hcount ▸ h.created
  timer := h.timer

theorem connect (a : Attempt) : Paced 1 s.connector (s.connect a).connector := by
  unfold ConnectorSite.connect
  dsimp only
  refine of_created a.sockfd ?_
  split
  · exact of_pace ConnectorSite.pace_connecting
  · split
    · exact retry
    · exact of_pace rfl

theorem startInLoop (a : Attempt) : Paced 1 s.connector (s.startInLoop a).connector := by
  refine of_pace_trans (d := (s.assertThat .startDisconnected (s.connector.state = .kDisconnected)).connector)
    ConnectorSite.pace_assertThat ?_
  unfold ConnectorSite.startInLoop
  dsimp only
  split
  · exact connect a
  · exact of_pace rfl

end Paced

namespace ConnectorLoop
variable {w : ConnectorLoop}

def pace (w : ConnectorLoop) : Nat × List Nat × Nat := w.site.connector.pace

theorem pace_destroyUnreferenced (w : ConnectorLoop) : w.destroyUnreferenced.pace = w.pace :=
  w.sameAttempt_destroyUnreferenced.pace

/-! ## What an event does to the pace -/

theorem paced_perform (op : Op) (w : ConnectorLoop) :
    Paced (asks (.call op)) w.site.connector (perform op w).site.connector := by
  cases op with
  | start a =>
    simp only [perform, start, owned]
    split
    · exact .of_pace rfl
    · let site : ConnectorSite := { w.site with connector := { w.site.connector with connect := true } }
      exact .of_pace_trans (d := site.connector) rfl (.startInLoop a)
  | stop =>
    simp only [perform, stop, owned]
    split
    · exact .of_pace rfl
    · exact .of_pace rfl
  | release =>
    simp only [perform, release, owned]
    split
    · exact .of_pace rfl
    · exact .of_pace (pace_destroyUnreferenced _)

theorem paced_retryTimer (a : Attempt) (w : ConnectorLoop) :
    Paced 1 { w.site.connector with retryTimers := w.site.connector.retryTimers.drop 1 }
      (w.retryTimer a).site.connector := by
  unfold retryTimer
  split
  · refine .of_pace ?_
    rw [List.drop_one]
    rfl
  · simp only [onSite, setSite, ConnectorSite.retryTimer]
    cases htimers : w.site.connector.retryTimers with
    | nil => exact .of_pace (by simp [Connector.pace, Connector.created, htimers])
    | cons d timers =>
      exact .startInLoop (s := { w.site with connector := { w.site.connector with retryTimers := timers } }) a

theorem pace_stopInLoop (w : ConnectorLoop) : w.stopInLoop.pace = w.pace := by
  simp only [stopInLoop, locked]
  split
  · rfl
  · exact ConnectorSite.pace_stopInLoop

theorem pace_runFunctor (w : ConnectorLoop) : w.runFunctor.pace = w.pace := by
  unfold runFunctor
  split
  · rfl
  · dsimp only
    split
    · rfl
    · exact (pace_destroyUnreferenced _).trans SameAttempt.resetChannel.pace

/-- The channel is dispatched: at most one of its callbacks sets a timer, since the attempt is over then. -/
def Dispatched (w u : ConnectorLoop) : Prop :=
  u.pace = w.pace ∨
    u.site.connector.state = .kDisconnected ∧ Paced 0 w.site.connector u.site.connector

theorem Dispatched.paced {u : ConnectorLoop} (h : Dispatched w u) : Paced 0 w.site.connector u.site.connector := by
  rcases h with hpace | ⟨-, hpaced⟩
  · exact .of_pace hpace
  · exact hpaced

theorem Dispatched.same {u v : ConnectorLoop} (h : Dispatched w u)
    (hs : SameAttempt u.site.connector v.site.connector) : Dispatched w v := by
  rcases h with hsame | ⟨hidle, hpaced⟩
  · exact .inl (hs.pace.trans hsame)
  · exact .inr ⟨hs.state.trans hidle, hpaced.trans_of_pace hs.pace⟩

theorem Dispatched.pace_eq {u : ConnectorLoop} (h : Dispatched w u) (hs : u.site.connector.state = .kConnecting) :
    u.pace = w.pace := by
  rcases h with hsame | ⟨hidle, -⟩
  · exact hsame
  · rw [hidle] at hs
    cases hs

theorem wp_handleEvent_dispatched (revents : Mask) (soError : Nat) (isSelfConnect : Bool) :
    (handleEvent revents soError isSelfConnect).wp (Dispatched w) (fun _ _ => True) (fun _ => Dispatched w) w := by
  refine wp_handleEvent ?_ ?_ ?_ ?_ (fun {u} hu => hu.same u.sameAttempt_destroyUnreferenced) (.inl rfl)
  · exact fun n b hu => hu.same .setEventHandling
  · exact fun b hu => hu.same (.assertThat (by decide))
  · intro u hu _ hs
    refine .inr ⟨(ConnectorSite.retry_connector _ _).1, ?_⟩
    exact .of_pace_trans (SameAttempt.removeAndResetChannel.pace.trans (hu.pace_eq hs)) .retry
  · intro u e he hu _ hs
    refine .inl (Eq.trans ?_ (hu.pace_eq hs))
    rcases he with rfl | rfl
    · exact SameAttempt.removeAndResetChannel.pace
    · exact SameAttempt.removeAndResetChannel.pace

/-- What follows the new-connection callback. -/
def KeepsPace (f : ConnectorLoop → ConnectorLoop) : Prop := ∀ w, (f w).pace = w.pace

theorem trails_handleWrite (soError : Nat) (isSelfConnect : Bool) :
    ((ConnectorSite.handleWrite soError isSelfConnect).handle site setSite Code.callback).Trails KeepsPace := by
  simp only [ConnectorSite.handleWrite, Code.handle_bind, Code.handle_get, Code.handle_ite, Code.handle_modify,
    Code.handle_callback]
  refine Code.Each.bind_trails (L := fun _ => True) (Code.each_get.bind fun _ => Code.each_pure) fun s => ?_
  refine Code.Trails.ite ?_ trivial
  refine Code.Each.bind_trails (L := fun _ => True) (Code.each_modify.mpr trivial) fun _ => ?_
  refine Code.Trails.ite trivial ?_
  refine Code.Each.bind_trails (L := fun _ => True) (Code.each_modify.mpr trivial) fun _ => ?_
  exact Code.Trails.ite trivial trivial

theorem trails_handleEvent (revents : Mask) (soError : Nat) (isSelfConnect : Bool) :
    (handleEvent revents soError isSelfConnect).Trails KeepsPace := by
  unfold handleEvent
  refine Code.Each.bind_trails (L := fun _ => True) Code.each_get fun u => ?_
  cases u.site.connector.channel with
  | none => trivial
  | some ch =>
    refine Code.Trails.bind ?_ fun _ => Code.each_modify.mpr pace_destroyUnreferenced
    simp only [ConnectorSite.handleEvent, Channel.handleEventWithGuard, Code.handle_bind, Code.handle_modify,
      Code.handle_when, Code.handle_pure]
    -- The write callback is the last but for the end of the guard.
    refine Code.Each.bind_trails (L := fun _ => True) (Code.each_modify.mpr trivial) fun _ => ?_
    refine Code.Each.bind_trails (L := fun _ => True) (Code.each_pure.when) fun _ => ?_
    refine Code.Each.bind_trails (L := fun _ => True) (Code.each_modify.mpr trivial).when fun _ => ?_
    refine Code.Each.bind_trails (L := fun _ => True) (Code.each_pure.when) fun _ => ?_
    refine Code.Trails.bind ?_ fun _ => Code.each_modify.mpr fun w => SameAttempt.setEventHandling.pace
    exact Code.Trails.ite (trails_handleWrite soError isSelfConnect) trivial

section Step
variable {c d : Config ConnectorLoop Nat} {e : Reentrant.Event Op Top}

theorem keepsPace_step (h : c.Trailing KeepsPace) (hstep : system.step c e = some d) : d.Trailing KeepsPace := by
  refine Reentrant.trailing_step (m := system) (fun _ => trivial) (fun t => ?_) h hstep
  cases t with
  | handleEvent revents soError isSelfConnect => exact trails_handleEvent revents soError isSelfConnect
  | retryTimer a | stopInLoop | doPendingFunctors | runFunctor => trivial

theorem fires_le (hstep : system.step c e = some d) : fires e ≤ c.state.site.connector.retryTimers.length := by
  obtain ⟨s, frames⟩ := c
  cases e with
  | call op | ret => exact Nat.zero_le _
  | top t =>
    cases t with
    | retryTimer a =>
      cases frames with
      | nil =>
        obtain ⟨hen, -⟩ := Option.ite_none_right_eq_some.mp hstep
        have hne : s.site.connector.retryTimers ≠ [] := by simpa [system, enabled] using hen
        exact List.length_pos_iff.mpr hne
      | cons f frames => cases hstep
    | handleEvent revents soError isSelfConnect | stopInLoop | doPendingFunctors | runFunctor => exact Nat.zero_le _

/-- The connector when the timer that fires in the event is gone. -/
def unscheduled (e : Reentrant.Event Op Top) (c : Connector) : Connector :=
  { c with retryTimers := c.retryTimers.drop (fires e) }

theorem paced_step (h : c.Trailing KeepsPace) (hstep : system.step c e = some d) :
    Paced (asks e + fires e) (unscheduled e c.state.site.connector) d.state.site.connector := by
  cases e with
  | call op =>
    obtain rfl := Option.some.inj hstep
    exact paced_perform op c.state
  | ret =>
    refine .of_pace (c := c.state.site.connector) ?_
    exact Reentrant.ret_of_trailing (P := fun w => w.pace = c.state.pace) h hstep (fun f hf s hs => (hf s).trans hs) rfl
  | top t =>
    obtain ⟨s, frames⟩ := c
    cases frames with
    | cons f frames => cases hstep
    | nil =>
      obtain ⟨-, ⟨⟩⟩ := Option.ite_none_right_eq_some.mp hstep
      cases t with
      | handleEvent revents soError isSelfConnect =>
        have hwp : (handleEvent revents soError isSelfConnect).wp (Dispatched s) (fun _ _ => True)
            (fun _ u => Dispatched s u ∧
              Reentrant.FramesOk (C := Nat) (Dispatched s) (Dispatched s) (fun _ _ => True) [] u) s :=
          Code.wp_mono (fun _ _ hu => ⟨hu, hu⟩) (wp_handleEvent_dispatched revents soError isSelfConnect)
        exact (Reentrant.enter_ok hwp).1.paced
      | retryTimer a => exact paced_retryTimer a s
      | stopInLoop => exact .of_pace (pace_stopInLoop s)
      | doPendingFunctors => exact .of_pace rfl
      | runFunctor => exact .of_pace (pace_runFunctor s)

end Step
end ConnectorLoop

/-! ## Every run -/

namespace TimedConnector
open ConnectorLoop (OneAttempt KeepsPace StartsIdle Unstarted Op Top asks fires unscheduled)
variable {t : TimedConnector} {e : Reentrant.Event Op Top} {c : Config ConnectorLoop Nat}

/-- The timers that have fired account for the time, and one that waits is due when its delay has passed as well. -/
structure Backoff (t : TimedConnector) : Prop where
  good : Reentrant.Good OneAttempt OneAttempt (fun _ _ => True) t.config
  trailing : t.config.Trailing KeepsPace
  created : t.connector.created ≤ t.starts + t.fired
  delay : t.connector.retryDelayMs = retryDelay (t.fired + t.deadlines.length)
  timers : t.deadlines.length = t.connector.retryTimers.length
  due : ∀ d ∈ t.deadlines, scheduled (t.fired + 1) ≤ d
  elapsed : scheduled t.fired ≤ t.now

theorem Backoff.elapse (h : Backoff t) (ms : Nat) : Backoff { t with now := t.now + ms } where
  good := h.good
  trailing := h.trailing
  created := h.created
  delay := h.delay
  timers := h.timers
  due := h.due
  elapsed := Nat.le_trans h.elapsed (Nat.le_add_right _ _)

/-- At most one timer waits. -/
theorem Backoff.length_le (h : Backoff t) : t.deadlines.length ≤ 1 := h.timers ▸ h.good.1.timers

theorem fires_eq (e : Reentrant.Event Op Top) : fires e = 0 ∨ fires e = 1 := by
  unfold ConnectorLoop.fires
  split
  · exact .inr rfl
  · exact .inl rfl

/-- A timer that fires is due, so its delay has passed. -/
theorem Backoff.elapsed_fires (h : Backoff t) (hdue : t.due e = true) (hfires : fires e ≤ t.deadlines.length) :
    scheduled (t.fired + fires e) ≤ t.now := by
  unfold TimedConnector.due at hdue
  rcases fires_eq e with he | he
  · rw [he]
    exact h.elapsed
  · rw [he] at hdue hfires ⊢
    obtain ⟨d, rest, hd⟩ := List.exists_cons_of_length_pos hfires
    have hnow : d ≤ t.now := by simpa [hd] using hdue
    exact Nat.le_trans (h.due d (hd ▸ List.mem_cons_self)) hnow

/-- The timers that are left keep their deadlines. -/
theorem Backoff.due_waiting (h : Backoff t) : ∀ d ∈ t.waiting e, scheduled (t.fired + fires e + 1) ≤ d := by
  intro d hd
  rcases fires_eq e with he | he
  · rw [he]
    exact h.due d (List.mem_of_mem_drop hd)
  · have hlen := h.length_le
    have hpos := List.length_pos_of_mem hd
    rw [waiting, he, List.length_drop] at hpos
    omega

theorem Backoff.length_waiting (h : Backoff t) :
    (t.waiting e).length = (unscheduled e t.connector).retryTimers.length := by
  rw [waiting, unscheduled, List.length_drop, List.length_drop, h.timers]

theorem Backoff.delay_waiting (h : Backoff t) (hfires : fires e ≤ t.deadlines.length) :
    t.connector.retryDelayMs = retryDelay (t.fired + fires e + (t.waiting e).length) := by
  have hcount : t.fired + t.deadlines.length = t.fired + fires e + (t.waiting e).length := by
    rw [waiting, List.length_drop]
    omega
  rw [h.delay, hcount]

theorem deadlines_advance_same (h : c.state.site.connector.retryTimers.length ≤ (t.waiting e).length) :
    (t.advance e c).deadlines = t.waiting e := by
  rw [advance, List.drop_eq_nil_of_le h, List.map_nil, List.append_nil]

theorem deadlines_advance_set {delay : Nat} (hwaiting : t.waiting e = [])
    (htimers : c.state.site.connector.retryTimers = [delay]) : (t.advance e c).deadlines = [t.now + delay] := by
  rw [advance, hwaiting, htimers]
  rfl

theorem Backoff.loop (h : Backoff t) (hcond : StartsIdle.holds t.config e) (hdue : t.due e = true)
    (hstep : ConnectorLoop.system.step t.config e = some c) : Backoff (t.advance e c) := by
  have hgood := ConnectorLoop.keeps_oneAttempt.step h.good hcond hstep
  have htrailing := ConnectorLoop.keepsPace_step h.trailing hstep
  have hpaced : Paced (asks e + fires e) (unscheduled e t.connector) c.state.site.connector :=
    ConnectorLoop.paced_step h.trailing hstep
  have hfires : fires e ≤ t.deadlines.length := h.timers ▸ ConnectorLoop.fires_le hstep
  have hdelay := h.delay_waiting hfires
  have hcreated : c.state.site.connector.created ≤ t.starts + asks e + (t.fired + fires e) := by
    have hbefore : (unscheduled e t.connector).created ≤ t.starts + t.fired := h.created
    have hafter := hpaced.created
    omega
  have helapsed := h.elapsed_fires hdue hfires
  rcases hpaced.timer with ⟨htimers, hsame⟩ | ⟨htimers, hdouble⟩
  · -- No timer is set.
    have hlen : (t.waiting e).length = c.state.site.connector.retryTimers.length :=
      h.length_waiting.trans (congrArg List.length htimers.symm)
    have hdeadlines := deadlines_advance_same (Nat.le_of_eq hlen.symm)
    refine ⟨hgood, htrailing, hcreated, ?_, ?_, ?_, helapsed⟩
    · rw [hdeadlines]
      exact hsame.trans hdelay
    · rw [hdeadlines]
      exact hlen
    · rw [hdeadlines]
      exact h.due_waiting
  · -- A timer is set. It is the only one that waits.
    have hone : (unscheduled e t.connector).retryTimers.length + 1 ≤ 1 := by
      have hlen := hgood.1.timers
      rw [htimers, List.length_append] at hlen
      exact hlen
    have hnone : (unscheduled e t.connector).retryTimers = [] := List.length_eq_zero_iff.mp (by omega)
    have hwaiting : t.waiting e = [] := List.length_eq_zero_iff.mp (by rw [h.length_waiting, hnone]; rfl)
    rw [hwaiting] at hdelay
    rw [hnone] at htimers
    have hdeadlines := deadlines_advance_set hwaiting htimers
    refine ⟨hgood, htrailing, hcreated, ?_, ?_, ?_, helapsed⟩
    · rw [hdeadlines]
      refine hdouble.trans ?_
      change min (t.connector.retryDelayMs * 2) _ = _
      rw [hdelay]
      exact (retryDelay_succ _).symm
    · rw [hdeadlines]
      exact (congrArg List.length htimers).symm
    · rw [hdeadlines]
      intro d hd
      rw [List.mem_singleton.mp hd]
      exact Nat.add_le_add helapsed (Nat.le_of_eq hdelay.symm)

/-- `start` is called in `kDisconnected`, and while no retry timer waits. -/
def Idle (t : TimedConnector) : TimedEvent → Prop
  | .elapse _ => True
  | .loop e => StartsIdle.holds t.config e

theorem Backoff.step {u : TimedConnector} {e : TimedEvent} (h : Backoff t) (hcond : Idle t e)
    (hstep : system.step t e = some u) : Backoff u := by
  cases e with
  | elapse ms =>
    obtain rfl := Option.some.inj hstep
    exact h.elapse ms
  | loop e =>
    obtain ⟨hdue, hmap⟩ := Option.ite_none_right_eq_some.mp hstep
    obtain ⟨c, hc, rfl⟩ := Option.map_eq_some_iff.mp hmap
    exact h.loop hcond hdue hc

theorem backoff_unstarted {w : ConnectorLoop} (hw : Unstarted w)
    (hdelay : w.site.connector.retryDelayMs = ConnectorSite.kInitRetryDelayMs) : Backoff (new w) := by
  refine ⟨⟨hw.oneAttempt, hw.oneAttempt⟩, List.forall_mem_nil _, ?_, hdelay, ?_, List.forall_mem_nil _, Nat.le_refl _⟩
  · exact Nat.le_of_eq (by simp [new, connector, Connector.created, hw.sockets])
  · simp [new, connector, hw.timers]

/-- In every run in which `start` is called only in `kDisconnected` and while no retry timer waits, each attempt is one
    that `start` has asked for or the retry of a timer that has fired, and the first `n` timers have fired only when the
    first `n` delays have passed, each twice the one before up to the longest. So there are at most six retries more than
    one in each span of the longest delay, however often the owner stops and starts the connector. -/
theorem attempts_paced {w : ConnectorLoop} {es : List TimedEvent} (hw : Unstarted w)
    (hdelay : w.site.connector.retryDelayMs = ConnectorSite.kInitRetryDelayMs)
    (h : system.Run Idle (new w) es t) :
    t.connector.created ≤ t.starts + t.fired ∧ scheduled t.fired ≤ t.now ∧
      t.connector.created ≤ t.starts + (6 + t.now / ConnectorSite.kMaxRetryDelayMs) := by
  have hend := h.invariant Backoff.step (backoff_unstarted hw hdelay)
  refine ⟨hend.created, hend.elapsed, Nat.le_trans hend.created ?_⟩
  exact Nat.add_le_add_left (le_of_scheduled hend.elapsed) _

instance (t : TimedConnector) (e : TimedEvent) : Decidable (Idle t e) :=
  match e with
  | .elapse _ => instDecidableTrue
  | .loop e => inferInstanceAs (Decidable (StartsIdle.holds t.config e))

/-- Two attempts are refused and the connector is stopped, so that its second timer fires in vain. It is started again and
    refused, and waits for two seconds. -/
theorem attempts_paced_refused :
    ∃ t, system.Run Idle (new ConnectorLoop.unstarted)
        [.loop (.call (.start ⟨10, ECONNREFUSED⟩)), .elapse 500, .loop (.top (.retryTimer ⟨11, ECONNREFUSED⟩)),
          .loop (.call .stop), .loop (.top .stopInLoop), .elapse 1000, .loop (.top (.retryTimer ⟨12, ECONNREFUSED⟩)),
          .loop (.call (.start ⟨12, ECONNREFUSED⟩)), .elapse 2000, .loop (.top (.retryTimer ⟨13, EINPROGRESS⟩))] t ∧
      t.connector.created = 4 ∧ t.starts = 2 ∧ t.fired = 3 ∧ t.now = 3500 ∧
      t.connector.created ≤ t.starts + t.fired ∧ scheduled t.fired ≤ t.now ∧
        t.connector.created ≤ t.starts + (6 + t.now / ConnectorSite.kMaxRetryDelayMs) :=
  Stepper.Run.replay rfl fun run => ⟨rfl, rfl, rfl, rfl, attempts_paced ConnectorLoop.unstarted_ok rfl run⟩

end TimedConnector
end Muduo
