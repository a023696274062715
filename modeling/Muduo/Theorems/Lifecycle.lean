import Muduo.Theorems.ConnectionRules

/-! # The life of a connection

A connection goes up once and down once. `forceClose` runs `handleClose` at once, in whatever callback it is
called, and a dispatch that was due before may come after it: `handleClose` asserts that the connection is
not down yet, and nothing on the way to it tests that. In every run without such a dispatch, the state only
moves forward, the callbacks come in their order and at most once, and the asserts hold. -/

namespace Muduo
open Lib

namespace StateE

/-- The order in which a connection goes through its states. -/
def rank : StateE → Nat
  | .kConnecting => 0
  | .kConnected => 1
  | .kDisconnecting => 2
  | .kDisconnected => 3

theorem rank_le_kDisconnected (st : StateE) : st.rank ≤ StateE.kDisconnected.rank := by cases st <;> decide

theorem eq_kDisconnected {st : StateE} (h : StateE.kDisconnected.rank ≤ st.rank) : st = .kDisconnected := by
  cases st <;> first | rfl | exact absurd h (by decide)

end StateE

namespace ConnEvent

def isCall : ConnEvent → Bool
  | .connectionCallback _ | .closeCallback => true
  | _ => false

def state? : ConnEvent → Option StateE
  | .setState st => some st
  | _ => none

def up : ConnEvent := .connectionCallback .kConnected
def down : ConnEvent := .connectionCallback .kDisconnected

end ConnEvent

open ConnEvent (up down)

/-- The calls of the connection callback and of the close callback, newest first. -/
def calls (log : List ConnEvent) : List ConnEvent := log.filter ConnEvent.isCall

/-- The states that were set, newest first. -/
def states (log : List ConnEvent) : List StateE := log.filterMap ConnEvent.state?

/-- What was called by the time a connection is in a state. -/
def CallsIn : StateE → List ConnEvent → Prop
  | .kConnecting, l => l = []
  | .kConnected, l | .kDisconnecting, l => l = [up]
  | .kDisconnected, l => l = [down, up] ∨ l = [.closeCallback, down, up]

namespace Site

structure Lifecycle (s : Site) : Prop where
  calls : CallsIn s.conn.state (calls s.conn.log)
  states : (s.conn.state :: states s.conn.log).Pairwise fun later earlier => earlier.rank ≤ later.rank
  events : s.conn.state = .kDisconnected → s.conn.channel.events = 0
  destroyed : s.conn.destroyed = true → s.conn.state = .kDisconnected
  callback : s.conn.connectionCallback = true
  failed : s.conn.failed = []
  channelFailed : s.conn.channel.failed = []

/-- What user code may change: the state moves forward, and when a connection is down nothing is called
    again. -/
def Forward (s t : Site) : Prop :=
  s.conn.state.rank ≤ t.conn.state.rank ∧
    (s.conn.state = .kDisconnected → Muduo.calls t.conn.log = Muduo.calls s.conn.log)

section Steps
variable {s t u : Site}

theorem Forward.refl (s : Site) : Forward s s := ⟨Nat.le_refl _, fun _ => rfl⟩

theorem Forward.down (h : Forward s t) (hs : s.conn.state = .kDisconnected) : t.conn.state = .kDisconnected :=
  StateE.eq_kDisconnected (hs ▸ h.1)

theorem Forward.trans (h : Forward s t) (h' : Forward t u) : Forward s u := by
  refine ⟨Nat.le_trans h.1 h'.1, fun hs => ?_⟩
  rw [h'.2 (h.down hs), h.2 hs]

theorem forward_of_open (hs : Open s) (ht : t.conn.state = .kDisconnected) : Forward s t := by
  exact ⟨ht ▸ s.conn.state.rank_le_kDisconnected, fun hdown => absurd hdown ((open_iff s).mp hs).2⟩

/-- A step that leaves the state alone and calls nothing. -/
structure Uneventful (s t : Site) : Prop where
  state : t.conn.state = s.conn.state := by rfl
  calls : Muduo.calls t.conn.log = Muduo.calls s.conn.log := by rfl
  states : Muduo.states t.conn.log = Muduo.states s.conn.log := by rfl
  events : s.conn.state = .kDisconnected → s.conn.channel.events = 0 → t.conn.channel.events = 0 := by
    exact fun _ he => he
  destroyed : t.conn.destroyed = s.conn.destroyed := by rfl
  callback : t.conn.connectionCallback = s.conn.connectionCallback := by rfl
  failed : t.conn.failed = s.conn.failed := by rfl
  channelFailed : t.conn.channel.failed = s.conn.channel.failed := by rfl

theorem Lifecycle.of_uneventful (h : Lifecycle s) (hq : Uneventful s t) : Lifecycle t where
  calls := by rw [hq.state, hq.calls]; exact h.calls
  states := by rw [hq.state, hq.states]; exact h.states
  events hs := hq.events (hq.state ▸ hs) (h.events (hq.state ▸ hs))
  destroyed hd := hq.state.trans (h.destroyed (hq.destroyed ▸ hd))
  callback := hq.callback.trans h.callback
  failed := hq.failed.trans h.failed
  channelFailed := hq.channelFailed.trans h.channelFailed

theorem Uneventful.forward (h : Uneventful s t) : Forward s t :=
  ⟨Nat.le_of_eq (by rw [h.state]), fun _ => h.calls⟩

theorem Lifecycle.step_uneventful (h : Lifecycle t ∧ Forward s t) (hq : Uneventful t u) :
    Lifecycle u ∧ Forward s u :=
  ⟨h.1.of_uneventful hq, h.2.trans hq.forward⟩

theorem events_ne_zero_of_isWriting {c : Channel} (h : c.isWriting = true) : c.events ≠ 0 := by
  rintro he
  simp [Channel.isWriting, Mask.has, he] at h

/-- The lifecycle does not depend on the loop. -/
theorem uneventful_of_conn (h : t.conn = s.conn) : Uneventful s t := by
  cases s
  cases t
  cases h
  exact {}

theorem uneventful_record {e : ConnEvent} (hcall : e.isCall = false) (hstate : e.state? = none) :
    Uneventful s (s.record e) where
  calls := by simp [record, Muduo.calls, hcall]
  states := by simp [record, Muduo.states, hstate]

theorem lifecycle_keptByOutput (s : Site) : KeptByOutput fun t => Lifecycle t ∧ Forward s t where
  record he h := by
    refine Lifecycle.step_uneventful h (uneventful_record ?_ ?_)
    all_goals rename_i e; cases e <;> first | rfl | cases he
  queue _ h := Lifecycle.step_uneventful h {}
  append h := Lifecycle.step_uneventful h {}
  retrieve h := Lifecycle.step_uneventful h {}
  enable hs h := Lifecycle.step_uneventful h { events := fun hdown => absurd hdown hs }
  disable hw h :=
    Lifecycle.step_uneventful h { events := fun _ he => absurd he (events_ne_zero_of_isWriting hw) }

/-! ## Changes of the state -/

theorem Lifecycle.states_cons {st : StateE} (h : Lifecycle s) (hrank : s.conn.state.rank ≤ st.rank) :
    (st :: st :: Muduo.states s.conn.log).Pairwise fun later earlier => earlier.rank ≤ later.rank := by
  have hbound : ∀ x ∈ Muduo.states s.conn.log, x.rank ≤ st.rank :=
    fun x hx => Nat.le_trans (List.rel_of_pairwise_cons h.states hx) hrank
  refine .cons (fun x hx => ?_) (.cons hbound h.states.of_cons)
  rcases List.mem_cons.mp hx with rfl | hx
  · exact Nat.le_refl _
  · exact hbound x hx

theorem Lifecycle.setState {st : StateE} (h : Lifecycle s) (hrank : s.conn.state.rank ≤ st.rank)
    (hst : st ≠ .kDisconnected) (hcalls : CallsIn st (Muduo.calls s.conn.log)) : Lifecycle (s.setState st) where
  calls := hcalls
  states := h.states_cons hrank
  events hs := absurd hs hst
  destroyed hd := absurd (StateE.eq_kDisconnected (h.destroyed hd ▸ hrank)) hst
  callback := h.callback
  failed := h.failed
  channelFailed := h.channelFailed

theorem Lifecycle.calls_of_open (h : Lifecycle s) (hs : Open s) : Muduo.calls s.conn.log = [up] := by
  have hcalls := h.calls
  rcases hs with hs | hs <;> rwa [hs] at hcalls

/-- A connection goes down, and its connection callback is about to run. -/
theorem Lifecycle.disconnect (h : Lifecycle s) (hs : Open s) : Lifecycle (s.disconnect.record down) ∧
    Muduo.calls (s.disconnect.record down).conn.log = [down, up] := by
  have hcalls : Muduo.calls (s.disconnect.record down).conn.log = [down, up] :=
    congrArg (down :: ·) (h.calls_of_open hs)
  refine ⟨?_, hcalls⟩
  exact {
    calls := Or.inl hcalls
    states := h.states_cons s.conn.state.rank_le_kDisconnected
    events := fun _ => rfl
    destroyed := fun _ => rfl
    callback := h.callback
    failed := h.failed
    channelFailed := h.channelFailed }

theorem Lifecycle.removeChannel (h : Lifecycle s) (hs : s.conn.state = .kDisconnected) :
    Lifecycle s.removeChannel := by
  have hnone : s.conn.channel.isNoneEvent = true := beq_iff_eq.mpr (h.events hs)
  have hfailed : s.removeChannel.conn.channel.failed = [] := by
    simp only [Site.removeChannel, onChannel, Channel.remove, hnone, if_true]
    exact h.channelFailed
  have hevents : s.removeChannel.conn.channel.events = 0 := by
    simp only [Site.removeChannel, onChannel, Channel.remove, hnone, if_true]
    exact h.events hs
  exact ⟨h.calls, h.states, fun _ => hevents, fun _ => hs, h.callback, h.failed, hfailed⟩

/-! ## Functions that run callbacks -/

variable {C : Type} {c : C}

theorem wp_disconnect (h : Lifecycle s) (hs : Open s) :
    (runConnectionCallback c).wp Lifecycle Forward
      (fun _ t => Lifecycle t ∧ t.conn.state = .kDisconnected ∧ Muduo.calls t.conn.log = [down, up])
      s.disconnect := by
  obtain ⟨hdown, hcalls⟩ := h.disconnect hs
  refine wp_callbackIf (fun _ => ⟨hdown, fun t ht hforward => ?_⟩) (fun hunset => ?_)
  · exact ⟨ht, hforward.down rfl, (hforward.2 rfl).trans hcalls⟩
  · cases h.callback.symm.trans hunset

theorem wp_handleClose (h : Lifecycle s) (hs : Open s) :
    handleClose.wp Lifecycle Forward (fun _ t => Lifecycle t ∧ t.conn.state = .kDisconnected) s := by
  have hassert : s.assertState .closeState
      (decide (s.conn.state = .kConnected ∨ s.conn.state = .kDisconnecting)) = s :=
    if_pos (decide_eq_true (p := _ ∨ _) hs)
  simp only [handleClose, Code.wp_bind, Code.wp_modify, hassert]
  refine Code.wp_mono (fun _ t ht => ?_) (wp_disconnect h hs)
  obtain ⟨hlife, hdown, hcalls⟩ := ht
  refine wp_callbackIf (fun _ => ⟨?_, fun u hu hforward => ⟨hu, hforward.down hdown⟩⟩) (fun _ => ⟨hlife, hdown⟩)
  have hclosed : Muduo.calls (t.record .closeCallback).conn.log = [.closeCallback, down, up] :=
    congrArg (ConnEvent.closeCallback :: ·) hcalls
  refine ⟨?_, hlife.states, hlife.events, hlife.destroyed, hlife.callback, hlife.failed, hlife.channelFailed⟩
  have hstate : (t.record .closeCallback).conn.state = .kDisconnected := hdown
  rw [hstate, hclosed]
  exact Or.inr rfl

theorem wp_forceClose_lifecycle (h : Lifecycle s) :
    forceClose.wp Lifecycle Forward (fun _ t => Lifecycle t ∧ Forward s t) s := by
  refine wp_forceClose (fun hs => ?_) (fun _ => ⟨h, .refl s⟩)
  have hrank : s.conn.state.rank ≤ StateE.kDisconnecting.rank := by
    rcases hs with hs | hs <;> simp [hs, StateE.rank]
  have hset : Lifecycle (s.setState .kDisconnecting) := h.setState hrank (by simp) (h.calls_of_open hs)
  exact Code.wp_mono (fun _ t ht => ⟨ht.1, forward_of_open hs ht.2⟩) (wp_handleClose hset (Or.inr rfl))

theorem wp_connectDestroyed (h : Lifecycle s) (hs : s.conn.state ≠ .kConnecting) :
    (connectDestroyed c).wp Lifecycle Forward (fun _ t => Lifecycle t ∧ Forward s t) s := by
  simp only [connectDestroyed, Code.wp_bind, Code.wp_get, Code.wp_modify]
  have hdestroying : Uneventful s { s with conn := { s.conn with destroying := true } } :=
    {}
  refine Code.wp_when (fun hopen => ?_) (fun hclosed => ?_)
  · simp only [Code.wp_bind, Code.wp_modify]
    refine Code.wp_mono (fun _ t ht => ?_) (wp_disconnect (h.of_uneventful hdestroying) hopen)
    exact ⟨ht.1.removeChannel ht.2.1, forward_of_open hopen ht.2.1⟩
  · have hdown : s.conn.state = .kDisconnected := eq_kDisconnected_of_not_open hclosed hs
    exact ⟨(h.of_uneventful hdestroying).removeChannel hdown, Nat.le_refl _, fun _ => rfl⟩

theorem wp_connectEstablished (h : Lifecycle s) (hs : s.conn.state = .kConnecting) :
    (connectEstablished c).wp Lifecycle Forward (fun _ t => Lifecycle t) s := by
  have hassert : s.assertState .establishedConnecting (decide (s.conn.state = .kConnecting)) = s :=
    if_pos (decide_eq_true hs)
  have hcalls : Muduo.calls s.conn.log = [] := by
    have := h.calls
    rwa [hs] at this
  have hrank : s.conn.state.rank ≤ StateE.kConnected.rank := by rw [hs]; decide
  simp only [connectEstablished, Code.wp_bind, Code.wp_modify, establish, hassert]
  refine wp_callbackIf (fun _ => ⟨?_, fun t ht _ => ht⟩) (fun hunset => ?_)
  · exact {
      calls := congrArg (up :: ·) hcalls
      states := h.states_cons hrank
      events := fun hup => by cases hup
      destroyed := fun hd => by cases hs.symm.trans (h.destroyed hd)
      callback := h.callback
      failed := h.failed
      channelFailed := h.channelFailed }
  · cases h.callback.symm.trans hunset

theorem wp_handleEvent_lifecycle {revents : Mask} {r : ReadResult} {w : WriteResult} (h : Lifecycle s)
    (hs : s.conn.state ≠ .kConnecting)
    (hlinux : revents.has POLLHUP → revents.has POLLPRI ∨ revents.has POLLRDHUP → revents.has POLLIN)
    (hdown : s.conn.state = .kDisconnected → ¬revents.hangsUp ∧ ¬(revents.isReadable ∧ r.isEof = true)) :
    (handleEvent revents r w).wp Lifecycle Forward (fun _ t => Lifecycle t) s := by
  have hopen : s.conn.state ≠ .kDisconnected → Open s := fun hne => (open_iff s).mpr ⟨hs, hne⟩
  have hbegin : Lifecycle (s.setEventHandling true) := h.of_uneventful {}
  -- If the dispatch closed the connection already, it does not read: a hangup without data is all there is.
  refine wp_handleEvent (A := fun t => Lifecycle t ∧ (revents.isReadable → t.conn.state = s.conn.state))
    (B := Lifecycle) (fun hhup => ?_) (fun _ => ⟨hbegin, fun _ => rfl⟩) (fun hreadable t ht => ?_)
    (fun t ht => ht.1) (fun t ht => ?_) (fun t ht => ht.of_uneventful {})
  · refine Code.wp_mono (fun _ t ht => ⟨ht.1, fun hreadable => ?_⟩)
      (wp_handleClose hbegin (hopen fun hstate => (hdown hstate).1 hhup))
    rw [Mask.isReadable, Mask.has_or, Mask.has_or, Bool.or_eq_true, Bool.or_eq_true, or_assoc] at hreadable
    exact absurd (hreadable.elim id (hlinux hhup.1)) hhup.2
  · have hstate := ht.2 hreadable
    refine wp_handleRead (fun heof => ?_) (fun _ data => ?_) (fun _ => ht.1)
    · have hne : s.conn.state ≠ .kDisconnected := fun hstate => (hdown hstate).2 ⟨hreadable, heof⟩
      have : Open t := by
        have := hopen hne
        rwa [Open, ← hstate] at this
      exact Code.wp_mono (fun _ u hu => hu.1) (wp_handleClose ht.1 this)
    · have hread : Lifecycle (t.readFd data) := ht.1.of_uneventful {}
      exact wp_callbackIf (fun _ => ⟨hread.of_uneventful (uneventful_record rfl rfl), fun u hu _ => hu⟩)
        (fun _ => hread)
  · exact ((lifecycle_keptByOutput t).handleWrite ⟨ht, .refl t⟩).1

end Steps

/-! ## Every run -/

/-- A new connection, with any callbacks besides the connection callback. -/
structure Fresh (s : Site) : Prop where
  state : s.conn.state = .kConnecting
  log : s.conn.log = []
  destroyed : s.conn.destroyed = false
  callback : s.conn.connectionCallback = true
  failed : s.conn.failed = []
  channelFailed : s.conn.channel.failed = []

/-- The runs of `connectEstablished`, dispatches, `send`, `shutdown`, `forceClose` in the loop thread, and
    `connectDestroyed`, in which a dispatch of a connection that is down already does not close it again.
    `POLLHUP` comes with `POLLPRI` or `POLLRDHUP` only if `POLLIN` is set too. -/
def ClosedOnce : Reentrant.Cond Site Op Top where
  call
    | .send _ _, _ | .shutdown, _ | .forceClose, _ => True
    | .connectDestroyed, s => s.conn.state ≠ .kConnecting
    | _, _ => False
  top
    | .handleEvent revents r _, s =>
      (revents.has POLLHUP → revents.has POLLPRI ∨ revents.has POLLRDHUP → revents.has POLLIN) ∧
        (s.conn.state = .kDisconnected → ¬revents.hangsUp ∧ ¬(revents.isReadable ∧ r.isEof = true))
    | .runFunctor _, s => s.loop.queue.functors.head?.all Functor.isCallback = true
    | _, _ => True

instance (op : Op) (s : Site) : Decidable (ClosedOnce.call op s) :=
  match op with
  | .send _ _ | .shutdown | .forceClose => instDecidableTrue
  | .connectDestroyed => inferInstanceAs (Decidable (_ ≠ _))
  | .startRead | .stopRead | .callElsewhere _ | .stepElsewhere _ => instDecidableFalse

instance (t : Top) (s : Site) : Decidable (ClosedOnce.top t s) :=
  match t with
  | .handleEvent _ _ _ => inferInstanceAs (Decidable ((_ → _ → _) ∧ (_ → _)))
  | .runFunctor _ => inferInstanceAs (Decidable (_ = _))
  | .connectEstablished | .doPendingFunctors => instDecidableTrue

theorem lifecycle_keeps : system.Keeps ClosedOnce Lifecycle Lifecycle Forward where
  refl := .refl
  trans := .trans
  inner h := h
  outer _ ht _ := ht
  api := by
    intro op s h hc
    have houtput := lifecycle_keptByOutput s
    cases op with
    | send message result => exact houtput.send ⟨h, .refl s⟩
    | shutdown =>
      simp only [system, api, Code.wp_modify, shutdown]
      split
      · rename_i hs
        have hrank : s.conn.state.rank ≤ StateE.kDisconnecting.rank := by rw [hs]; decide
        have hset : Lifecycle (s.setState .kDisconnecting) :=
          h.setState hrank (by simp) (h.calls_of_open (Or.inl hs))
        exact houtput.shutdownInLoop ⟨hset, hrank, fun hdown => by cases hs.symm.trans hdown⟩
      · exact ⟨h, .refl s⟩
    | forceClose => exact wp_forceClose_lifecycle h
    | connectDestroyed => exact wp_connectDestroyed h hc
    | startRead | stopRead | callElsewhere | stepElsewhere => exact hc.elim
  top := by
    intro t s h hen hc
    have hloop : ∀ u : Site, u.conn = s.conn → Lifecycle u := fun u hu => h.of_uneventful (uneventful_of_conn hu)
    cases t with
    | connectEstablished => exact wp_connectEstablished h (of_decide_eq_true hen)
    | handleEvent revents r w =>
      have hs : s.conn.state ≠ .kConnecting := of_decide_eq_true (Bool.and_eq_true_iff.mp hen).2
      exact wp_handleEvent_lifecycle h hs hc.1 hc.2
    | doPendingFunctors => exact hloop _ rfl
    | runFunctor result =>
      simp only [system, top, Code.wp_bind, Code.wp_get]
      simp only [ClosedOnce] at hc
      cases hq : s.loop.queue.functors with
      | nil => exact h
      | cons f rest =>
        rw [hq, List.head?_cons, Option.all_some] at hc
        simp only [Code.wp_bind, Code.wp_modify]
        cases f with
        | writeComplete | highWaterMark =>
          simp only [runFunctor, Code.wp_bind, Code.wp_get]
          exact Code.wp_when (fun _ => ⟨hloop _ rfl, fun t ht _ => ht⟩) (fun _ => hloop _ rfl)
        | sendInLoop | shutdownInLoop | forceCloseInLoop | startReadInLoop | stopReadInLoop | resetChannel =>
          cases hc

theorem Fresh.lifecycle {s : Site} (h : Fresh s) : Lifecycle s where
  calls := by rw [h.state, h.log]; rfl
  states := by rw [h.log]; exact List.pairwise_singleton _ _
  events hs := absurd hs (by rw [h.state]; decide)
  destroyed hd := absurd hd (by rw [h.destroyed]; decide)
  callback := h.callback
  failed := h.failed
  channelFailed := h.channelFailed

/-- The state only moves forward. The connection callback is called once in `kConnected` and once in
    `kDisconnected`, the close callback at most once and after that, and a connection that `connectDestroyed`
    has left is down. The asserts of `connectEstablished`, `handleClose` and `Channel::remove` hold. -/
theorem closed_once {s : Site} {es : List (Reentrant.Event Op Top)} {c : Config Site ConnCallback} (hs : Fresh s)
    (h : system.stepper.Run (fun c e => ClosedOnce.holds c e) ⟨s, []⟩ es c) :
    (states c.state.conn.log).Pairwise (fun later earlier => earlier.rank ≤ later.rank) ∧
      CallsIn c.state.conn.state (calls c.state.conn.log) ∧
      (c.state.conn.destroyed = true → c.state.conn.state = .kDisconnected) ∧
      c.state.conn.failed = [] ∧ c.state.conn.channel.failed = [] := by
  have hlife : Lifecycle c.state := (lifecycle_keeps.run hs.lifecycle h).1
  exact ⟨hlife.states.of_cons, hlife.calls, hlife.destroyed, hlife.failed, hlife.channelFailed⟩

def closable : Site :=
  { conn :=
    { id := 0, channel := { id := .connection 0, fd := 5 }, inputBuffer := .new 4, closeCallback := true } }

/-- The message callback closes the connection, the callback that reports it sends once more, and
    `connectDestroyed` follows. -/
theorem closed_once_reentrant :
    ∃ c, system.stepper.Run (fun c e => ClosedOnce.holds c e) ⟨closable, []⟩
        [.top .connectEstablished, .call (.send [1] (.wrote 1)), .ret,
          .top (.handleEvent POLLIN (.read [2]) (.wrote 0)), .call .forceClose, .call (.send [3] (.wrote 1)),
          .ret, .ret, .ret, .call .connectDestroyed] c ∧
      c.state.conn.destroyed = true ∧ calls c.state.conn.log = [.closeCallback, down, up] ∧
      c.state.conn.failed = [] :=
  Stepper.Run.replay rfl fun run =>
    ⟨rfl, rfl, (closed_once ⟨rfl, rfl, rfl, rfl, rfl, rfl⟩ run).2.2.2.1⟩

/-- The connection is closed by `forceClose`, and then a dispatch finds the end of the stream: `handleClose`
    runs again, its assert fails, and both callbacks are called again. -/
theorem closed_twice :
    ∃ c, system.stepper.Run (fun _ _ => True) ⟨closable, []⟩
        [.top .connectEstablished, .ret, .call .forceClose, .ret, .ret,
          .top (.handleEvent POLLIN (.read []) (.wrote 0)), .ret, .ret, .call .connectDestroyed] c ∧
      c.state.conn.failed = [.closeState] ∧ ¬CallsIn c.state.conn.state (calls c.state.conn.log) :=
  Stepper.Run.replay rfl fun _ => ⟨rfl, by rintro (h | h) <;> cases h⟩

end Site
end Muduo
