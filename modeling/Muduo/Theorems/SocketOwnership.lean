import Muduo.Theorems.ConnectionAttempts

/-! # What becomes of the sockets

A connector closes the socket of an attempt or passes it on when the attempt ends. It never learns the end of an
attempt whose channel is taken from it: by a reset that was queued for an earlier channel, or by its own
destructor. Where neither happens, a destroyed connector leaves no socket behind. -/

namespace Muduo
open Lib

namespace ConnectorLoop
variable {w v : ConnectorLoop}

/-! ## Every socket is disposed of -/

/-- The connector is not dropped during an attempt, so its channel stays with it until it ends. A connector that has
    been dropped and not destroyed is held by a reset. -/
structure Owned (w : ConnectorLoop) : Prop where
  attached : Attached w
  timers : w.site.connector.retryTimers.length ≤ 1
  connecting : w.site.connector.state = .kConnecting → w.site.connector.retryTimers = [] ∧ w.released = false
  alive : w.released = true → w.destroyed = false → w.site.queuedResets ≠ []
  dropped : w.destroyed = true → w.released = true

/-- The destructor does not run during an attempt. -/
theorem Owned.destroyed (h : Attached w) (ht : w.site.connector.retryTimers.length ≤ 1)
    (hs : w.site.connector.state ≠ .kConnecting) (hd : w.destroyed = true → w.released = true) :
    Owned w.destroyUnreferenced := by
  have hattached := h.destroyUnreferenced
  unfold destroyUnreferenced at hattached ⊢
  split at hattached
  · rename_i hcond
    rw [if_pos hcond]
    have hsame := SameAttempt.destroy (s := w.site)
    exact ⟨hattached, hsame.timers ▸ ht, fun hc => absurd (hsame.state.symm.trans hc) hs,
      fun _ hdes => absurd hdes (by simp), fun _ => hcond.1⟩
  · rename_i hcond
    rw [if_neg hcond]
    refine ⟨hattached, ht, fun hc => absurd hc hs, fun hrel hdes hr => ?_, hd⟩
    exact hcond ⟨hrel, by simp [hdes], hr⟩

/-- No attempt begins while another one, a retry timer or a reset waits, and the connector is not dropped during
    an attempt. -/
def Unhurried : Reentrant.Cond ConnectorLoop Op Top where
  call
    | .start _, w =>
      w.site.connector.state ≠ .kConnecting ∧ w.site.connector.retryTimers = [] ∧ w.site.queuedResets = []
    | .stop, _ => True
    | .release, w => w.site.connector.state ≠ .kConnecting
  top
    | .retryTimer _, w => w.site.queuedResets = []
    | _, _ => True

/-- What is known where an attempt begins. -/
structure Ready (w : ConnectorLoop) : Prop where
  state : w.site.connector.state ≠ .kConnecting
  timers : w.site.connector.retryTimers = []
  resets : w.site.queuedResets = []
  released : w.released = false

theorem Owned.begins (h : Owned w) (hw : Ready w) (hattached : Attached v)
    (hv : AttemptResult w.site.connector v.site.connector) (ho : SameOwner w v) : Owned v where
  attached := hattached
  timers := hv.length_le hw.timers
  connecting hc := ⟨(hv.of_connecting hw.state hc).1.trans hw.timers, ho.released.trans hw.released⟩
  alive hrel := by
    rw [ho.released, hw.released] at hrel
    cases hrel
  dropped hdes := ho.released.trans (h.dropped (ho.destroyed.symm.trans hdes))

theorem Owned.step (h : Owned w)
    (hstep : AttemptStep Ready (fun w => w.site.connector.state ≠ .kConnecting) w v) : Owned v := by
  have hattached := h.attached.step hstep fun hw => ⟨hw.state, hw.resets⟩
  cases hstep with
  | same hsame _ hresets ho =>
    refine ⟨hattached, hsame.timers ▸ h.timers, fun hc => ?_, fun hrel hdes => ?_, fun hdes => ?_⟩
    · obtain ⟨ht, hrel⟩ := h.connecting (hsame.state.symm.trans hc)
      exact ⟨hsame.timers.trans ht, ho.released.trans hrel⟩
    · exact hresets ▸ h.alive (ho.released.symm.trans hrel) (ho.destroyed.symm.trans hdes)
    · exact ho.released.trans (h.dropped (ho.destroyed.symm.trans hdes))
  | fired heq =>
    subst heq
    have htail : w.site.popTimer.connector.retryTimers.length ≤ 1 :=
      Nat.le_trans (by simp [ConnectorSite.popTimer]) h.timers
    refine ⟨hattached, htail, fun hc => ?_, h.alive, h.dropped⟩
    obtain ⟨ht, hrel⟩ := h.connecting hc
    exact ⟨congrArg List.tail ht, hrel⟩
  | begins hw hresult _ ho => exact h.begins hw hattached hresult ho
  | ends hs hthere hends howner =>
    obtain ⟨hresets, ho⟩ := howner (h.attached.isSome hs hthere)
    refine ⟨hattached, by simpa [(h.connecting hs).1] using hends.timers, fun hc => absurd hc hends.state,
      fun _ _ => hresets, fun hdes => ?_⟩
    exact ho.released.trans (h.dropped (ho.destroyed.symm.trans hdes))
  | reset u hqueued hsame ho heq =>
    -- During an attempt no functor of the batch is a reset.
    have hs : w.site.connector.state ≠ .kConnecting := by
      intro hc
      rcases h.attached.connecting hc with hdes | ⟨hnil, -⟩
      · exact absurd (h.dropped hdes) (by simp [(h.connecting hc).2])
      · exact hqueued hnil
    have hidle : u.site.connector.state ≠ .kConnecting := fun hc => hs (hsame.state.symm.trans hc)
    refine heq ▸ .destroyed ⟨hsame.ledger h.attached.ledger, fun hc => absurd hc hidle⟩ (hsame.timers ▸ h.timers) hidle
      fun hdes => ho.released.trans (h.dropped (ho.destroyed.symm.trans hdes))
  | dropped hs heq =>
    exact heq ▸ Owned.destroyed (w := { w with released := true }) ⟨h.attached.ledger, h.attached.connecting⟩ h.timers hs
      fun _ => rfl
  | unreferenced heq =>
    subst heq
    by_cases hs : w.site.connector.state = .kConnecting
    · have hsame : w.destroyUnreferenced = w := by simp [ConnectorLoop.destroyUnreferenced, (h.connecting hs).2]
      exact hsame.symm ▸ h
    · exact .destroyed h.attached h.timers hs h.dropped

/-- A timer finds the connector only while the owner has it, unless a reset is queued. -/
theorem Owned.popTimer (h : Owned w) (hne : w.site.connector.retryTimers ≠ []) (hr : w.site.queuedResets = [])
    (hdes : w.destroyed = false) : Ready (w.onSite ConnectorSite.popTimer) where
  state hc := hne (h.connecting hc).1
  timers := by
    have hlen := h.timers
    refine List.length_eq_zero_iff.1 ?_
    simp only [onSite, setSite, ConnectorSite.popTimer, List.length_tail]
    omega
  resets := hr
  released := by
    change w.released = false
    by_cases hrel : w.released = true
    · exact absurd hr (h.alive hrel hdes)
    · simpa using hrel

theorem keeps_owned : system.Keeps Unhurried Owned Owned (fun _ _ => True) :=
  keeps_of_attemptStep (fun _ hc hrel => ⟨hc.1, hc.2.1, hc.2.2, hrel⟩) (fun h hr hne hdes => h.popTimer hne hr hdes)
    (fun hs => hs) Owned.step

/-- In every run in which no attempt begins while a reset is queued and the connector is not dropped during an
    attempt, the sockets of a destroyed connector are each passed on or closed, once. At any time all sockets are,
    except for the last one during an attempt. -/
theorem sockets_disposed {es : List (Reentrant.Event Op Top)} {c : Config ConnectorLoop Nat} (hw : Unstarted w)
    (hrel : w.released = false) (hdes : w.destroyed = false)
    (h : system.stepper.Run (fun c e => Unhurried.holds c e) ⟨w, []⟩ es c) :
    (c.state.destroyed = true → Disposed c.state.site.connector.sockets) ∧
      (Disposed c.state.site.connector.sockets ∨
        c.state.site.connector.state = .kConnecting ∧ ∃ fd, Underway fd c.state.site.connector.sockets) := by
  have hstart : Owned w :=
    ⟨hw.attached, by simp [hw.timers], by simp [hw.state], by simp [hrel], by simp [hdes]⟩
  have hend := (keeps_owned.run hstart h).1
  by_cases hs : c.state.site.connector.state = .kConnecting
  · obtain ⟨fd, hfd, -⟩ := hend.attached.ledger.connecting hs
    refine ⟨fun hd => ?_, Or.inr ⟨hs, fd, hfd⟩⟩
    have hdropped := hend.dropped hd
    simp [(hend.connecting hs).2] at hdropped
  · exact ⟨fun _ => hend.attached.ledger.idle hs, Or.inl (hend.attached.ledger.idle hs)⟩

instance (op : Op) (w : ConnectorLoop) : Decidable (Unhurried.call op w) :=
  match op with
  | .start _ => inferInstanceAs (Decidable (_ ∧ _ ∧ _))
  | .stop => instDecidableTrue
  | .release => inferInstanceAs (Decidable (_ ≠ _))

instance (e : Top) (w : ConnectorLoop) : Decidable (Unhurried.top e w) :=
  match e with
  | .retryTimer _ => inferInstanceAs (Decidable (_ = _))
  | .handleEvent _ _ _ | .stopInLoop | .doPendingFunctors | .runFunctor => instDecidableTrue

/-- One attempt ends in an error, the next is stopped, and the third connects; the owner drops the connector in
    the new-connection callback, while the reset still holds it. -/
theorem sockets_disposed_stopped :
    ∃ c, system.stepper.Run (fun c e => Unhurried.holds c e) ⟨unstarted, []⟩
        [.call (.start ⟨10, EINPROGRESS⟩), .top (.handleEvent POLLERR 111 false), .top .doPendingFunctors,
          .top .runFunctor, .top (.retryTimer ⟨11, EINPROGRESS⟩), .call .stop, .top .stopInLoop,
          .top .doPendingFunctors, .top .runFunctor, .call (.start ⟨12, 0⟩),
          .top (.handleEvent POLLOUT 0 false), .call .release, .ret, .top .doPendingFunctors, .top .runFunctor] c ∧
      c.state.destroyed = true ∧
      c.state.site.connector.sockets =
        [.passed 12, .created 12, .closed 11, .created 11, .closed 10, .created 10] ∧
      (c.state.destroyed = true → Disposed c.state.site.connector.sockets) ∧
      (Disposed c.state.site.connector.sockets ∨
        c.state.site.connector.state = .kConnecting ∧ ∃ fd, Underway fd c.state.site.connector.sockets) :=
  Stepper.Run.replay rfl fun run => ⟨rfl, rfl, sockets_disposed unstarted_ok rfl rfl run⟩

/-- A connector that is dropped during an attempt leaves its socket open. So does one that is started again while
    the reset of a stopped attempt is queued: the reset takes the channel of the new attempt. -/
theorem socket_leaked :
    (∃ c, system.stepper.Run (fun _ _ => True) ⟨unstarted, []⟩
        [.call (.start ⟨10, EINPROGRESS⟩), .call .release] c ∧
      c.state.destroyed = true ∧ c.state.site.connector.sockets = [.created 10]) ∧
    ∃ c, system.stepper.Run (fun _ _ => True) ⟨unstarted, []⟩
        [.call (.start ⟨10, EINPROGRESS⟩), .call .stop, .top .stopInLoop, .call (.start ⟨11, EINPROGRESS⟩),
          .top .doPendingFunctors, .top .runFunctor, .call .release] c ∧
      c.state.destroyed = true ∧ c.state.site.connector.sockets = [.created 11, .closed 10, .created 10] :=
  ⟨Stepper.Run.replay rfl fun _ => ⟨rfl, rfl⟩, Stepper.Run.replay rfl fun _ => ⟨rfl, rfl⟩⟩

end ConnectorLoop
end Muduo
