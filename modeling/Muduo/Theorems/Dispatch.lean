import Muduo.Theorems.ClientRules

/-! # Channels that wait to be dispatched

A close runs to its end where it is called: the connection is destroyed and its channel removed before
`forceClose` returns. In the dispatch of the connection itself this is what the assert of
`EventLoop::removeChannel` allows. A callback of another connection must not close a connection that the same
poll has reported, and with that no channel is removed while it waits. -/

namespace Muduo
open Lib

namespace ClientLoop

/-- The channels that wait are active, are not the current one, and have not been removed since the poll. -/
structure Dispatching (w : ClientLoop) : Prop where
  ids : ∀ i, (w.conns i).channel.id = .connection i
  nodup : w.toDispatch.Nodup
  active : ∀ c ∈ w.toDispatch, c ∈ w.loop.activeChannels
  current : ∀ c ∈ w.toDispatch, w.loop.currentActiveChannel ≠ some c
  present : ∀ c ∈ w.toDispatch, c ∉ w.loop.removed
  idle : w.loop.eventHandling = false → w.waiting = [] ∧ w.loop.currentActiveChannel = none
  failed : .removeActive ∉ w.loop.failed

/-- What callbacks leave alone. -/
structure SameDispatch (v w : ClientLoop) : Prop where
  waiting : w.waiting = v.waiting
  handling : w.loop.eventHandling = v.loop.eventHandling
  active : w.loop.activeChannels = v.loop.activeChannels
  current : w.loop.currentActiveChannel = v.loop.currentActiveChannel
  dead : ∀ i, (v.conns i).state = .kDisconnected → (w.conns i).state = .kDisconnected

section Steps
variable {u v w : ClientLoop} {i : Nat} {c : ChannelId}

theorem SameDispatch.refl (w : ClientLoop) : SameDispatch w w := ⟨rfl, rfl, rfl, rfl, fun _ h => h⟩

theorem SameDispatch.trans (h : SameDispatch u v) (h' : SameDispatch v w) : SameDispatch u w :=
  ⟨h'.waiting.trans h.waiting, h'.handling.trans h.handling, h'.active.trans h.active, h'.current.trans h.current,
    fun i hi => h'.dead i (h.dead i hi)⟩

theorem SameDispatch.mayRemove (h : SameDispatch v w) : w.loop.mayRemove c = v.loop.mayRemove c := by
  simp only [EventLoop.mayRemove, h.handling, h.active, h.current]

theorem Dispatching.not_waiting (h : Dispatching w) (hmay : w.loop.mayRemove c = true) : c ∉ w.toDispatch := by
  intro hc
  simp only [EventLoop.mayRemove, Bool.or_eq_true, Bool.not_eq_true', beq_iff_eq, List.contains_eq_mem,
    decide_eq_false_iff_not] at hmay
  rcases hmay with (hidle | hcurrent) | hactive
  · simp [toDispatch, (h.idle hidle).1] at hc
  · exact h.current c hc hcurrent
  · exact hactive (h.active c hc)

theorem Dispatching.of_quiet (h : Dispatching v) (hwaiting : w.waiting = v.waiting) (hloop : v.loop.Quiet w.loop)
    (hids : ∀ i, (w.conns i).channel.id = (v.conns i).channel.id) : Dispatching w := by
  have hd : w.toDispatch = v.toDispatch := by rw [toDispatch, hwaiting, toDispatch]
  refine ⟨fun i => (hids i).trans (h.ids i), hd ▸ h.nodup, ?_, ?_, ?_, ?_, ?_⟩
  · rw [hd, hloop.active]; exact h.active
  · rw [hd, hloop.current]; exact h.current
  · rw [hd, hloop.removed]; exact h.present
  · rw [hwaiting, hloop.handling, hloop.current]; exact h.idle
  · rw [hloop.failed]; exact h.failed

theorem Dispatching.of_removes (h : Dispatching v) (hwaiting : w.waiting = v.waiting)
    (hloop : v.loop.Removes c w.loop) (hmay : v.loop.mayRemove c = true)
    (hids : ∀ i, (w.conns i).channel.id = (v.conns i).channel.id) : Dispatching w := by
  have hd : w.toDispatch = v.toDispatch := by rw [toDispatch, hwaiting, toDispatch]
  refine ⟨fun i => (hids i).trans (h.ids i), hd ▸ h.nodup, ?_, ?_, ?_, ?_, ?_⟩
  · rw [hd, hloop.active]; exact h.active
  · rw [hd, hloop.current]; exact h.current
  · rw [hd, hloop.removed]
    intro d hd' hmem
    rcases List.mem_cons.mp hmem with rfl | hmem
    · exact h.not_waiting hmay hd'
    · exact h.present d hd' hmem
  · rw [hwaiting, hloop.handling, hloop.current]; exact h.idle
  · rw [hloop.failed hmay]; exact h.failed

end Steps

def MayClose (i : Nat) (w : ClientLoop) : Prop := w.loop.mayRemove (.connection i) = true

def Closing (i : Nat) (w : ClientLoop) : Prop := MayClose i w ∧ (w.conns i).state = .kDisconnected

theorem setSite_quiet {w : ClientLoop} {i : Nat} {s : Site} (h : Dispatching w) (hs : w.loop.Quiet s.loop)
    (hid : s.conn.channel.id = (w.conns i).channel.id)
    (hdead : (w.conns i).state = .kDisconnected → s.conn.state = .kDisconnected) :
    Dispatching (w.setSite i s) ∧ SameDispatch w (w.setSite i s) := by
  refine ⟨h.of_quiet rfl hs fun j => ?_, rfl, hs.handling, hs.active, hs.current, fun j hj => ?_⟩
  · rw [setSite_conns]
    split
    · rename_i hj
      rw [hj, hid]
    · rfl
  · rw [setSite_conns]
    split
    · rename_i heq
      exact hdead (heq ▸ hj)
    · exact hj

theorem keptByConn : KeptByConn Dispatching SameDispatch MayClose Closing where
  refl := .refl
  trans := .trans
  quiet h hs := setSite_quiet h hs.loop hs.channel hs.dead
  may h hs := (hs.loop.mayRemove _).trans h
  down {w i} h hmay := by
    have hloop : w.loop.Quiet (w.site i).disconnect.loop := .updateChannel _
    obtain ⟨hd, hr⟩ := setSite_quiet (i := i) h hloop rfl fun _ => rfl
    refine ⟨hd, hr, (hloop.mayRemove _).trans hmay, ?_⟩
    rw [ClientLoop.down, setSite_conns_self]
    rfl
  closing h hs := ⟨(hs.loop.mayRemove _).trans h.1, by rw [setSite_conns_self]; exact hs.dead h.2⟩
  stays h hr := ⟨hr.mayRemove.trans h.1, hr.dead _ h.2⟩
  dead h := h.2
  remove {v w i a} h hclosing hmay hr := by
    obtain ⟨l, hremoves, -, hquiet⟩ := remove_loop w i a
    rw [h.ids i] at hremoves
    have hmid : Dispatching { w with loop := l } := h.of_removes rfl hremoves hclosing.1 fun _ => rfl
    refine ⟨hmid.of_quiet (remove_waiting w i a) hquiet fun j => (remove_conns w i a j).1, hr.trans ?_⟩
    exact ⟨remove_waiting w i a, hquiet.handling.trans hremoves.handling, hquiet.active.trans hremoves.active,
      hquiet.current.trans hremoves.current, fun j hj => (remove_conns w i a j).2.trans hj⟩

/-! ## Connectors -/

section Connectors
variable {w : ClientLoop} {k n : Nat} {f : ConnectorSite → ConnectorSite}

theorem Dispatching.onConnector (h : Dispatching w) (hf : w.loop.Quiet (f (w.connectorSite k)).loop) :
    Dispatching (w.onConnector k f) :=
  h.of_quiet rfl hf fun _ => rfl

/-- The channel of attempt `n` is being dispatched, and is still the channel of its connector. -/
structure DispatchedConnector (k n : Nat) (w : ClientLoop) : Prop where
  dispatching : Dispatching w
  current : w.loop.currentActiveChannel = some (.connector k n)
  channel : (w.connectorSite k).channelId = some (.connector k n)

theorem DispatchedConnector.step (h : DispatchedConnector k n w) (hf : w.loop.Quiet (f (w.connectorSite k)).loop)
    (hchannel : (f (w.connectorSite k)).channelId = (w.connectorSite k).channelId) :
    DispatchedConnector k n (w.onConnector k f) where
  dispatching := h.dispatching.onConnector hf
  current := hf.current.trans h.current
  channel := by rw [onConnector, connectorSite_setConnectorSite, hchannel, h.channel]

theorem DispatchedConnector.removeAndResetChannel (h : DispatchedConnector k n w) :
    DispatchedConnector k n (w.onConnector k ConnectorSite.removeAndResetChannel) := by
  obtain ⟨c, hc, hid⟩ := Option.map_eq_some_iff.mp h.channel
  have hremoves := ConnectorSite.removes_removeAndResetChannel hc
  have hmay : w.loop.mayRemove c.id = true := by simp [EventLoop.mayRemove, h.current, hid]
  refine ⟨h.dispatching.of_removes rfl hremoves hmay fun _ => rfl, hremoves.current.trans h.current, ?_⟩
  rw [onConnector, connectorSite_setConnectorSite, ConnectorSite.removeAndResetChannel_channelId, h.channel]

theorem DispatchedConnector.handleError (h : DispatchedConnector k n w) :
    DispatchedConnector k n (w.onConnector k ConnectorSite.handleError) := by
  rw [onConnector_handleError]
  split
  · exact h.removeAndResetChannel.step (.of_eq ConnectorSite.retry_loop) ConnectorSite.retry_channelId
  · exact h.step (.refl _) rfl

theorem Dispatching.established {sockfd : Nat} (h : Dispatching w) : Dispatching (w.established k sockfd) := by
  have hadd : Dispatching (w.addConnection k sockfd) := by
    refine ⟨fun j => ?_, h.nodup, h.active, h.current, h.present, h.idle, h.failed⟩
    simp only [addConnection]
    split
    · rename_i hj
      rw [hj]
    · exact h.ids j
  obtain ⟨hloop, hid, -⟩ := Site.establish_spec ((w.addConnection k sockfd).site w.nextConn)
  have hnew : ((w.addConnection k sockfd).conns w.nextConn).state = .kConnecting := by simp [addConnection]
  have hestablish := (setSite_quiet hadd hloop hid fun hdead => absurd (hnew.symm.trans hdead) (by decide)).1
  exact (keptByConn.quiet hestablish (.record _)).1

theorem Dispatching.connectorEvent (h : DispatchedConnector k n w) {revents : Mask} {soError : Nat} {b : Bool} :
    ((ConnectorSite.handleEvent n revents soError b).handle (connectorSite k) (setConnectorSite k)
      (newConnection k)).wp Dispatching SameDispatch (fun _ u => Dispatching u) w := by
  have hsucceed : ∀ (u : ClientLoop) (e : SocketEvent), Dispatching u → Dispatching (u.succeed k e) :=
    fun u e hu => hu.onConnector (.refl _)
  refine ConnectorSite.wp_handleEvent (A := DispatchedConnector k n) (B := fun _ => Dispatching) (C := Dispatching)
    (connectorSite_setConnectorSite k) (setConnectorSite_setConnectorSite k)
    (h.step (.of_eq ConnectorSite.setEventHandling_loop) ConnectorSite.setEventHandling_channelId)
    (fun u hu => hu.handleError)
    (fun u hu => hu.dispatching)
    (fun u _ hu => hu.dispatching.onConnector (.of_eq ConnectorSite.assertThat_loop))
    (fun u hu _ => hu.removeAndResetChannel.dispatching)
    (fun u fd hu => hu.onConnector (.of_eq ConnectorSite.retry_loop))
    (fun u fd hu => hsucceed u (.closed fd) hu)
    (fun u fd hu => ?_)
    (fun u hu => hu.onConnector (.of_eq ConnectorSite.setEventHandling_loop))
  exact wp_newConnection (hsucceed u (.passed fd) hu).established fun v hv _ => hv

end Connectors

/-! ## Every run -/

/-- User code closes a connection only in its own dispatch, or when the poll has not reported its channel. -/
def ClosesOwn : Reentrant.Cond ClientLoop Op Top where
  call
    | .forceClose i _, w =>
      Site.Open (w.site i) → w.loop.eventHandling = false ∨ w.loop.currentActiveChannel = some (.connection i) ∨
        .connection i ∉ w.loop.activeChannels
    | _, _ => True
  top _ _ := True

section Top
variable {w : ClientLoop} {r : Results}

theorem Dispatching.poll {ready : List (Nat × Mask)} (h : Dispatching w) (hidle : w.loop.eventHandling = false)
    (hnodup : ((w.polled ready).map (·.1)).Nodup) : Dispatching (w.poll ready) where
  ids := h.ids
  nodup := hnodup
  active _ hc := hc
  current c _ := by
    rw [show (w.poll ready).loop.currentActiveChannel = w.loop.currentActiveChannel from rfl, (h.idle hidle).2]
    simp
  present _ _ := List.not_mem_nil
  idle hidle := nomatch hidle
  failed := h.failed

theorem Dispatching.doPendingFunctors (h : Dispatching w) (hw : w.waiting = []) :
    Dispatching w.doPendingFunctors := by
  have hnone : w.doPendingFunctors.toDispatch = [] := by simp [toDispatch, ClientLoop.doPendingFunctors, hw]
  exact ⟨h.ids, by simp [hnone], by simp [hnone], by simp [hnone], by simp [hnone], fun _ => ⟨hw, rfl⟩, h.failed⟩

theorem Dispatching.dispatch (h : Dispatching w) (hhandling : w.loop.eventHandling = true) :
    (ClientLoop.dispatch r).wp Dispatching SameDispatch (fun _ u => Dispatching u) w := by
  simp only [ClientLoop.dispatch, Code.wp_bind, Code.wp_get]
  split
  · exact h
  · rename_i c revents waiting hw
    simp only [Code.wp_bind, Code.wp_modify]
    have hd : w.toDispatch = c :: waiting.map (·.1) := by simp [toDispatch, hw]
    have hnodup := hd ▸ h.nodup
    have hnext : Dispatching
        { w with waiting := waiting, loop := { w.loop with currentActiveChannel := some c } } := by
      refine ⟨h.ids, hnodup.of_cons, fun d hd' => h.active d ?_, fun d hd' heq => ?_, fun d hd' => h.present d ?_,
        fun hidle => absurd (hhandling.symm.trans hidle) (by decide), h.failed⟩
      · rw [hd]
        exact List.mem_cons_of_mem _ hd'
      · obtain rfl := Option.some.inj heq
        exact (List.nodup_cons.mp hnodup).1 hd'
      · rw [hd]
        exact List.mem_cons_of_mem _ hd'
    cases c with
    | connection i =>
      have hmay : MayClose i
          { w with waiting := waiting, loop := { w.loop with currentActiveChannel := some (.connection i) } } := by
        simp [MayClose, EventLoop.mayRemove]
      exact Code.wp_mono (fun _ u hu => hu.1)
        (keptByConn.handleEvent hnext (fun _ => hmay) fun _ _ _ u hu => hu.mayRemove.trans hmay)
    | connector k n =>
      simp only [ClientLoop.handleEvent, Code.wp_bind, Code.wp_get]
      exact Code.wp_when (fun hc => Dispatching.connectorEvent ⟨hnext, rfl, hc⟩) (fun _ => hnext)

theorem Dispatching.runFunctor (h : Dispatching w) (hidle : w.loop.eventHandling = false) (f : Functor) :
    (ClientLoop.runFunctor f r).wp Dispatching SameDispatch (fun _ u => Dispatching u) w := by
  have hconn : ∀ i, (onConn i r.attempt (Site.runFunctor f r.write)).wp Dispatching SameDispatch
      (fun _ u => Dispatching u) w := fun i =>
    Code.wp_mono (fun _ u hu => hu.1)
      (keptByConn.runFunctor h fun _ _ _ => by simp [MayClose, EventLoop.mayRemove, hidle])
  cases f with
  | resetChannel k n => exact h.onConnector (.of_eq ConnectorSite.resetChannel_loop)
  | _ => exact hconn _

end Top

theorem keeps_dispatching : system.Keeps ClosesOwn Dispatching Dispatching SameDispatch where
  refl := .refl
  trans := .trans
  inner h := h
  outer _ h _ := h
  api {op w} h hc := by
    cases op with
    | send i m r => exact keptByConn.modify h ((Site.Quiet.keptByOutput _).send (.refl _))
    | shutdown i => exact keptByConn.modify h .shutdown
    | forceClose i a =>
      refine keptByConn.forceClose h fun hopen => ?_
      rcases hc hopen with hidle | hcurrent | hactive
      · simp [MayClose, EventLoop.mayRemove, hidle]
      · simp [MayClose, EventLoop.mayRemove, hcurrent]
      · simp [MayClose, EventLoop.mayRemove, hactive]
    | connect k a =>
      have hloop : w.loop.Quiet (w.connect k a).loop := ConnectorSite.quiet_startInLoop rfl
      exact ⟨h.of_quiet rfl hloop fun _ => rfl, rfl, hloop.handling, hloop.active, hloop.current, fun _ hd => hd⟩
  top {e w} h hen hc := by
    cases e with
    | poll ready =>
      simp only [system, enabled, Bool.and_eq_true, Bool.not_eq_true', decide_eq_true_eq] at hen
      exact h.poll hen.1.1.1 hen.1.2
    | dispatch r =>
      simp only [system, enabled, Bool.and_eq_true] at hen
      exact h.dispatch hen.1
    | retryTimer k a => exact h.onConnector (ConnectorSite.quiet_retryTimer (s := w.connectorSite k))
    | doPendingFunctors =>
      simp only [system, enabled, Bool.and_eq_true, List.isEmpty_iff] at hen
      exact h.doPendingFunctors hen.2
    | runFunctor r =>
      simp only [system, enabled, Bool.not_eq_true'] at hen
      simp only [system, top, Code.wp_bind, Code.wp_get]
      split
      · exact h
      · simp only [Code.wp_bind, Code.wp_modify]
        refine Dispatching.runFunctor ?_ ?_ _
        · exact ⟨h.ids, h.nodup, h.active, h.current, h.present, h.idle, h.failed⟩
        · exact hen

/-- The loop is between two iterations. -/
structure Outside (w : ClientLoop) : Prop where
  ids : ∀ i, (w.conns i).channel.id = .connection i
  waiting : w.waiting = []
  handling : w.loop.eventHandling = false
  current : w.loop.currentActiveChannel = none
  failed : w.loop.failed = []

theorem Outside.dispatching {w : ClientLoop} (h : Outside w) : Dispatching w := by
  have hnone : w.toDispatch = [] := by simp [toDispatch, h.waiting]
  exact ⟨h.ids, by simp [hnone], by simp [hnone], by simp [hnone], by simp [hnone], fun _ => ⟨h.waiting, h.current⟩,
    by simp [h.failed]⟩

/-- In every run whose user code closes a connection only in its own dispatch or while its channel is not
    reported, every removal is allowed and no channel that waits to be dispatched has been removed. -/
theorem no_removal_while_active {w : ClientLoop} {es : List (Reentrant.Event Op Top)}
    {c : Config ClientLoop UserCallback} (hw : Outside w)
    (h : system.stepper.Run (fun c e => ClosesOwn.holds c e) ⟨w, []⟩ es c) :
    .removeActive ∉ c.state.loop.failed ∧ ∀ id ∈ c.state.toDispatch, id ∉ c.state.loop.removed :=
  have hgood := (keeps_dispatching.run hw.dispatching h).1
  ⟨hgood.failed, hgood.present⟩

instance (op : Op) (w : ClientLoop) : Decidable (ClosesOwn.call op w) :=
  match op with
  | .forceClose _ _ => inferInstanceAs (Decidable (_ → _ ∨ _ ∨ _))
  | .send _ _ _ | .shutdown _ | .connect _ _ => instDecidableTrue

instance (e : Top) (w : ClientLoop) : Decidable (ClosesOwn.top e w) := instDecidableTrue

theorem outside_start : Outside {} := ⟨fun _ => rfl, rfl, rfl, rfl, rfl⟩

/-- Client 0 has a connection, and client 1 has just got one in the iteration in which a poll has reported both. -/
def twoReported : List (Reentrant.Event Op Top) :=
  [.call (.connect 0 ⟨10, 0⟩), .top (.poll [(10, POLLOUT)]), .top (.dispatch {}), .ret, .top .doPendingFunctors,
    .top (.runFunctor {}), .call (.connect 1 ⟨11, 0⟩), .top (.poll [(11, POLLOUT), (10, POLLIN)]),
    .top (.dispatch {})]

/-- The connection callback of the new connection closes that connection. -/
theorem no_removal_while_active_own :
    ∃ c, system.stepper.Run (fun c e => ClosesOwn.holds c e) ⟨{}, []⟩
        (twoReported ++ [.call (.forceClose 1 ⟨0, 0⟩), .ret, .ret]) c ∧
      c.state.toDispatch = [.connection 0] ∧ c.state.loop.removed = [.connection 1, .connector 1 0] ∧
      .removeActive ∉ c.state.loop.failed ∧ ∀ id ∈ c.state.toDispatch, id ∉ c.state.loop.removed :=
  Stepper.Run.replay rfl fun run => ⟨rfl, rfl, no_removal_while_active outside_start run⟩

/-- The connection callback of the new connection closes the other one, whose channel waits. -/
theorem removed_while_active :
    ∃ c, system.stepper.Run (fun _ _ => True) ⟨{}, []⟩ (twoReported ++ [.call (.forceClose 0 ⟨0, 0⟩), .ret]) c ∧
      c.state.loop.failed = [.removeActive] ∧ c.state.toDispatch = [.connection 0] ∧
      .connection 0 ∈ c.state.loop.removed :=
  Stepper.Run.replay rfl fun _ => ⟨rfl, rfl, by decide⟩

end ClientLoop
end Muduo
