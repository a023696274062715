import Muduo.TcpClient
import Muduo.Theorems.ConnectionRules

/-! # Rules for the clients of a loop

Most of what a connection does is quiet: it stays out of the list of active channels, removes no channel from
the loop and queues no reset of a channel. What is not quiet is a close. `KeptByConn` says what an invariant of
the clients has to show of both, and the rules below derive from it what the functions that run callbacks keep. -/

namespace Muduo
open Lib

def Functor.isReset : Functor → Bool
  | .resetChannel _ _ => true
  | _ => false

theorem Functor.isReset_of_isCallback {f : Functor} (h : f.isCallback = true) : f.isReset = false := by
  cases f <;> first | rfl | cases h

/-! ## Quiet steps -/

/-- The dispatch and the resets are left alone. -/
structure EventLoop.Quiet (l m : EventLoop) : Prop where
  handling : m.eventHandling = l.eventHandling
  active : m.activeChannels = l.activeChannels
  current : m.currentActiveChannel = l.currentActiveChannel
  removed : m.removed = l.removed
  failed : m.failed = l.failed
  functors : m.queue.functors.filter Functor.isReset = l.queue.functors.filter Functor.isReset
  pending : m.queue.pendingFunctors.filter Functor.isReset = l.queue.pendingFunctors.filter Functor.isReset

namespace EventLoop.Quiet
variable {l m n : EventLoop}

theorem refl (l : EventLoop) : l.Quiet l := ⟨rfl, rfl, rfl, rfl, rfl, rfl, rfl⟩

theorem of_eq (h : m = l) : l.Quiet m := h ▸ refl l

theorem trans (h : l.Quiet m) (h' : m.Quiet n) : l.Quiet n :=
  ⟨h'.handling.trans h.handling, h'.active.trans h.active, h'.current.trans h.current, h'.removed.trans h.removed,
    h'.failed.trans h.failed, h'.functors.trans h.functors, h'.pending.trans h.pending⟩

theorem queueInLoop {f : Functor} (hf : f.isReset = false) : l.Quiet (l.queueInLoop f) :=
  { refl l with
    functors := congrArg (List.filter Functor.isReset) (LoopQueue.queueInLoop_functors true)
    pending := by
      refine (congrArg (List.filter Functor.isReset) (LoopQueue.queueInLoop_pendingFunctors true)).trans ?_
      simp [hf] }

theorem mayRemove (h : l.Quiet m) (c : ChannelId) : m.mayRemove c = l.mayRemove c := by
  simp only [EventLoop.mayRemove, h.handling, h.active, h.current]

theorem updateChannel (c : Channel) : l.Quiet (l.updateChannel c).1 := ⟨rfl, rfl, rfl, rfl, rfl, rfl, rfl⟩

end EventLoop.Quiet

structure EventLoop.Removes (c : ChannelId) (l m : EventLoop) : Prop where
  handling : m.eventHandling = l.eventHandling
  active : m.activeChannels = l.activeChannels
  current : m.currentActiveChannel = l.currentActiveChannel
  removed : m.removed = c :: l.removed
  failed : l.mayRemove c = true → m.failed = l.failed

theorem Channel.remove_id (c : Channel) (l : EventLoop) : (c.remove l).2.id = c.id := by
  simp only [Channel.remove, EventLoop.removeChannel]
  split <;> rfl

theorem Channel.remove_queue (c : Channel) (l : EventLoop) : (c.remove l).1.queue = l.queue := by
  simp only [Channel.remove, EventLoop.removeChannel]
  split <;> split <;> rfl

theorem Channel.removes (c : Channel) (l : EventLoop) : l.Removes c.id (c.remove l).1 := by
  have hid : (if c.isNoneEvent then c else { c with failed := .removeNoneEvent :: c.failed }).id = c.id := by
    split <;> rfl
  simp only [Channel.remove, EventLoop.removeChannel, hid]
  constructor
  case failed =>
    intro hmay
    rw [if_pos hmay]
  all_goals split <;> rfl

namespace Site

/-- A step of a connection that neither opens nor closes it. -/
structure Quiet (s t : Site) : Prop where
  loop : s.loop.Quiet t.loop
  channel : t.conn.channel.id = s.conn.channel.id
  state : t.conn.state = s.conn.state ∨ s.conn.state = .kConnected ∧ t.conn.state = .kDisconnecting

namespace Quiet
variable {s t u : Site}

theorem refl (s : Site) : s.Quiet s := ⟨.refl _, rfl, Or.inl rfl⟩

theorem trans (h : s.Quiet t) (h' : t.Quiet u) : s.Quiet u := by
  refine ⟨h.loop.trans h'.loop, h'.channel.trans h.channel, ?_⟩
  rcases h.state with hs | ⟨hs, ht⟩
  · rw [← hs]
    exact h'.state
  · rcases h'.state with ht' | ⟨ht', -⟩
    · exact Or.inr ⟨hs, ht'.trans ht⟩
    · simp [ht] at ht'

theorem record (e : ConnEvent) : s.Quiet (s.record e) := ⟨.refl _, rfl, Or.inl rfl⟩

theorem dead (h : s.Quiet t) (hs : s.conn.state = .kDisconnected) : t.conn.state = .kDisconnected := by
  rcases h.state with hstate | ⟨hstate, -⟩
  · exact hstate.trans hs
  · exact absurd (hstate.symm.trans hs) (by decide)

theorem isOpen (h : s.Quiet t) : Site.Open t ↔ Site.Open s := by
  rcases h.state with hstate | ⟨hs, ht⟩
  · rw [Site.Open, Site.Open, hstate]
  · exact iff_of_true (Or.inr ht) (Or.inl hs)

theorem onChannel {f : Mask → Mask} : s.Quiet (s.onChannel (Channel.setEvents f)) :=
  ⟨.updateChannel _, rfl, Or.inl rfl⟩

theorem keptByOutput (s : Site) : KeptByOutput s.Quiet where
  record _ h := h.trans (.record _)
  queue hf h := h.trans ⟨.queueInLoop (Functor.isReset_of_isCallback hf), rfl, Or.inl rfl⟩
  append h := h.trans ⟨.refl _, rfl, Or.inl rfl⟩
  retrieve h := h.trans ⟨.refl _, rfl, Or.inl rfl⟩
  enable _ h := h.trans onChannel
  disable _ h := h.trans onChannel

theorem shutdown : s.Quiet s.shutdown := by
  unfold Site.shutdown
  split
  · rename_i hs
    exact (keptByOutput s).shutdownInLoop ⟨.refl _, rfl, Or.inr ⟨hs, rfl⟩⟩
  · exact refl s

theorem startReadInLoop : s.Quiet s.startReadInLoop := by
  unfold Site.startReadInLoop
  split
  · exact ⟨.updateChannel _, rfl, Or.inl rfl⟩
  · exact refl s

theorem stopReadInLoop : s.Quiet s.stopReadInLoop := by
  unfold Site.stopReadInLoop
  split
  · exact ⟨.updateChannel _, rfl, Or.inl rfl⟩
  · exact refl s

theorem assertState {a : ConnAssert} {holds : Bool} : s.Quiet (s.assertState a holds) := by
  unfold Site.assertState
  split
  · exact refl s
  · exact ⟨.refl _, rfl, Or.inl rfl⟩

end Quiet

theorem establish_spec (s : Site) :
    s.loop.Quiet s.establish.loop ∧ s.establish.conn.channel.id = s.conn.channel.id ∧
      s.establish.conn.state = .kConnected ∧ s.establish.conn.connectionCallback = s.conn.connectionCallback := by
  simp only [establish, assertState]
  split <;> exact ⟨.updateChannel _, rfl, rfl, rfl⟩

end Site

namespace ConnectorSite
variable {s : ConnectorSite} {a : Attempt} {n fd : Nat} {b : Bool} {x : ConnectorAssert}

@[simp] theorem assertThat_loop : (s.assertThat x b).loop = s.loop := by
  unfold assertThat
  split <;> rfl

@[simp] theorem destroyChannel_loop : s.destroyChannel.loop = s.loop := by
  unfold destroyChannel
  split
  · rfl
  · simp [setChannel]

@[simp] theorem resetChannel_loop : (s.resetChannel n).loop = s.loop := destroyChannel_loop

@[simp] theorem retry_loop : (s.retry fd).loop = s.loop := by
  unfold retry
  dsimp only
  split <;> rfl

@[simp] theorem setEventHandling_loop : (s.setEventHandling n b).loop = s.loop := by
  unfold setEventHandling
  split
  · rfl
  · split <;> rfl

theorem removeAndResetChannel_eq {c : Channel} (hc : s.connector.channel = some c) :
    s.removeAndResetChannel =
      { connector :=
          { s.connector with channel := some ((c.disableAll s.loop).2.remove (c.disableAll s.loop).1).2 }
        loop := ((c.disableAll s.loop).2.remove (c.disableAll s.loop).1).1.queueInLoop
          (.resetChannel s.connector.id c.id.attempt) } := by
  simp only [removeAndResetChannel, onChannel, hc, setChannel, Channel.remove_id]
  rfl

def channelId (s : ConnectorSite) : Option ChannelId := s.connector.channel.map (·.id)

@[simp] theorem setEventHandling_channelId : (s.setEventHandling n b).channelId = s.channelId := by
  unfold setEventHandling
  split
  · rfl
  · split
    · simp [channelId, setChannel, *]
    · rfl

@[simp] theorem retry_channelId : (s.retry fd).channelId = s.channelId := by
  unfold retry
  dsimp only
  split <;> rfl

@[simp] theorem removeAndResetChannel_channelId : s.removeAndResetChannel.channelId = s.channelId := by
  cases hc : s.connector.channel with
  | none => simp [removeAndResetChannel, onChannel, hc]
  | some c => simp [removeAndResetChannel_eq hc, channelId, hc, Channel.remove_id, Channel.disableAll]

theorem quiet_onChannel {l : EventLoop} {f : Mask → Mask} (hl : s.loop = l) :
    l.Quiet (s.onChannel (Channel.setEvents f)).loop := by
  subst hl
  unfold onChannel
  split
  · exact .refl _
  · exact .updateChannel _

theorem removes_removeAndResetChannel {c : Channel} (hc : s.connector.channel = some c) :
    s.loop.Removes c.id s.removeAndResetChannel.loop := by
  have h := Channel.removes (c.disableAll s.loop).2 (c.disableAll s.loop).1
  rw [removeAndResetChannel_eq hc]
  exact ⟨h.handling, h.active, h.current, h.removed, h.failed⟩

theorem quiet_startInLoop {l : EventLoop} (hl : s.loop = l) : l.Quiet (s.startInLoop a).loop := by
  subst hl
  unfold startInLoop connect
  dsimp only
  split
  · split
    · refine quiet_onChannel ?_
      simp [makeChannel, setState, socketEvent]
    · split
      · rw [retry_loop]
        exact assertThat_loop ▸ .refl _
      · exact assertThat_loop ▸ .refl _
  · exact assertThat_loop ▸ .refl _

theorem quiet_retryTimer : s.loop.Quiet (s.retryTimer a).loop := by
  unfold retryTimer
  split
  · exact .refl _
  · exact quiet_startInLoop rfl

end ConnectorSite

namespace ClientLoop

/-- The channels that the loop has still to dispatch. -/
def toDispatch (w : ClientLoop) : List ChannelId := w.waiting.map (·.1)

/-! ## Closing a connection -/

/-- `handleClose` up to the connection callback. -/
def down (i : Nat) (w : ClientLoop) : ClientLoop := w.setSite i (w.site i).disconnect

/-- `connectDestroyed` of a connection that is down. -/
def destroy (i : Nat) (w : ClientLoop) : ClientLoop :=
  let w := w.setSite i { w.site i with conn := { w.conns i with destroying := true } }
  w.setSite i (w.site i).removeChannel

/-- `removeConnection` of a connection that is down. -/
def remove (i : Nat) (a : Attempt) (w : ClientLoop) : ClientLoop :=
  let w := (w.resetConnection i).destroy i
  if (w.clients (w.owner i)).retry ∧ (w.clients (w.owner i)).connect then
    w.onConnector (w.owner i) (ConnectorSite.restart a)
  else w

/-- What an invariant `I` and a relation `R` for callbacks have to show of the connections. A connection that
    `May` be closed is `Closing` from its disconnect until the client has removed it. -/
structure KeptByConn (I : ClientLoop → Prop) (R : ClientLoop → ClientLoop → Prop)
    (May Closing : Nat → ClientLoop → Prop) : Prop where
  refl : ∀ w, R w w
  trans : ∀ {u v w}, R u v → R v w → R u w
  quiet : ∀ {w i s}, I w → (w.site i).Quiet s → I (w.setSite i s) ∧ R w (w.setSite i s)
  may : ∀ {w i s}, May i w → (w.site i).Quiet s → May i (w.setSite i s)
  down : ∀ {w i}, I w → May i w → I (w.down i) ∧ R w (w.down i) ∧ Closing i (w.down i)
  closing : ∀ {w i s}, Closing i w → (w.site i).Quiet s → Closing i (w.setSite i s)
  stays : ∀ {v w i}, Closing i v → R v w → Closing i w
  dead : ∀ {w i}, Closing i w → (w.conns i).state = .kDisconnected
  remove : ∀ {v w i a}, I w → Closing i w → May i v → R v w → I (w.remove i a) ∧ R v (w.remove i a)

section Rules
variable {I : ClientLoop → Prop} {R : ClientLoop → ClientLoop → Prop} {Q : Unit → ClientLoop → Prop}
  {w : ClientLoop} {i : Nat} {a : Attempt}

@[simp] theorem site_setSite (i : Nat) (s : Site) (w : ClientLoop) :
    (w.setSite i s).site i = { conn := s.conn, loop := s.loop } := by
  simp [site, setSite]

@[simp] theorem setSite_clients (i : Nat) (s : Site) (w : ClientLoop) : (w.setSite i s).clients = w.clients := rfl
@[simp] theorem setSite_owner (i : Nat) (s : Site) (w : ClientLoop) : (w.setSite i s).owner = w.owner := rfl
@[simp] theorem setSite_loop (i : Nat) (s : Site) (w : ClientLoop) : (w.setSite i s).loop = s.loop := rfl

theorem setSite_conns (i : Nat) (s : Site) (w : ClientLoop) (j : Nat) :
    (w.setSite i s).conns j = if j = i then s.conn else w.conns j := rfl

@[simp] theorem setSite_conns_self (i : Nat) (s : Site) (w : ClientLoop) : (w.setSite i s).conns i = s.conn :=
  if_pos rfl

theorem onConnector_clients (k : Nat) (f : ConnectorSite → ConnectorSite) (w : ClientLoop) (j : Nat) :
    (w.onConnector k f).clients j =
      if j = k then { w.clients k with connector := (f (w.connectorSite k)).connector } else w.clients j := rfl

@[simp] theorem onConnector_owner (k : Nat) (f : ConnectorSite → ConnectorSite) (w : ClientLoop) :
    (w.onConnector k f).owner = w.owner := rfl

@[simp] theorem onConnector_connection (k : Nat) (f : ConnectorSite → ConnectorSite) (w : ClientLoop) (j : Nat) :
    ((w.onConnector k f).clients j).connection = (w.clients j).connection := by
  rw [onConnector_clients]
  split
  · rename_i hj
    rw [hj]
  · rfl

theorem setSite_setSite (i : Nat) (s t : Site) (w : ClientLoop) : (w.setSite i t).setSite i s = w.setSite i s := by
  simp only [setSite]
  congr
  funext j
  split <;> rfl

theorem destroy_eq (w : ClientLoop) (i : Nat) :
    w.destroy i =
      w.setSite i (Site.removeChannel { conn := { w.conns i with destroying := true }, loop := w.loop }) := by
  simp only [destroy, site_setSite, setSite_setSite]
  rfl

theorem remove_loop (w : ClientLoop) (i : Nat) (a : Attempt) :
    ∃ l, w.loop.Removes (w.conns i).channel.id l ∧ l.queue = w.loop.queue ∧ l.Quiet (w.remove i a).loop := by
  have hdestroy : w.loop.Removes (w.conns i).channel.id ((w.resetConnection i).destroy i).loop ∧
      ((w.resetConnection i).destroy i).loop.queue = w.loop.queue := by
    rw [destroy_eq]
    exact ⟨Channel.removes _ _, Channel.remove_queue _ _⟩
  refine ⟨_, hdestroy.1, hdestroy.2, ?_⟩
  unfold ClientLoop.remove
  dsimp only
  split
  · exact ConnectorSite.quiet_startInLoop rfl
  · exact .refl _

theorem remove_clients (w : ClientLoop) (i : Nat) (a : Attempt) :
    (∀ k, k ≠ w.owner i → (w.remove i a).clients k = w.clients k) ∧
      ((w.remove i a).clients (w.owner i)).connection = none ∧
      (((w.remove i a).clients (w.owner i)).connector = (w.clients (w.owner i)).connector ∨
        ∃ l, ((w.remove i a).clients (w.owner i)).connector =
          (ConnectorSite.restart a ⟨(w.clients (w.owner i)).connector, l⟩).connector) := by
  unfold ClientLoop.remove
  dsimp only
  split
  · refine ⟨fun k hk => ?_, ?_, Or.inr ⟨((w.resetConnection i).destroy i).loop, ?_⟩⟩
    · simp [onConnector_clients, destroy, resetConnection, onClient, hk]
    · simp [onConnector_clients, destroy, resetConnection, onClient]
    · simp [onConnector_clients, destroy, resetConnection, onClient, connectorSite]
  · refine ⟨fun k hk => ?_, ?_, Or.inl ?_⟩
    · simp [destroy, resetConnection, onClient, hk]
    · simp [destroy, resetConnection, onClient]
    · simp [destroy, resetConnection, onClient]

@[simp] theorem remove_owner (w : ClientLoop) (i : Nat) (a : Attempt) : (w.remove i a).owner = w.owner := by
  unfold ClientLoop.remove
  dsimp only
  split <;> rfl

@[simp] theorem remove_nextConn (w : ClientLoop) (i : Nat) (a : Attempt) :
    (w.remove i a).nextConn = w.nextConn := by
  unfold ClientLoop.remove
  dsimp only
  split <;> rfl

@[simp] theorem remove_waiting (w : ClientLoop) (i : Nat) (a : Attempt) : (w.remove i a).waiting = w.waiting := by
  unfold ClientLoop.remove
  dsimp only
  split <;> rfl

theorem remove_conns (w : ClientLoop) (i : Nat) (a : Attempt) (j : Nat) :
    ((w.remove i a).conns j).channel.id = (w.conns j).channel.id ∧
      ((w.remove i a).conns j).state = (w.conns j).state := by
  have hconns : (w.remove i a).conns = ((w.resetConnection i).destroy i).conns := by
    unfold ClientLoop.remove
    dsimp only
    split <;> rfl
  rw [hconns, destroy_eq, setSite_conns]
  split
  · subst j
    exact ⟨Channel.remove_id (w.conns _).channel w.loop, rfl⟩
  · exact ⟨rfl, rfl⟩

theorem wp_connectDestroyed (hdead : (w.conns i).state = .kDisconnected) (h : Q () (w.destroy i)) :
    (connectDestroyed i).wp I R Q w := by
  simp only [connectDestroyed, Site.connectDestroyed, Code.handle_bind, Code.handle_modify, Code.handle_get,
    Code.handle_when, Code.wp_bind, Code.wp_modify, Code.wp_get, Code.wp_pure]
  refine Code.wp_when (fun hopen => ?_) (fun _ => h)
  simp [site, setSite, hdead] at hopen

theorem wp_removeConnection (hdead : (w.conns i).state = .kDisconnected) (h : Q () (w.remove i a)) :
    (removeConnection i a).wp I R Q w := by
  simp only [removeConnection, Code.wp_bind, Code.wp_modify, Code.wp_get]
  refine wp_connectDestroyed hdead (Code.wp_when (fun hretry => ?_) (fun hno => ?_))
  · rw [ClientLoop.remove, if_pos hretry] at h
    exact h
  · rw [ClientLoop.remove, if_neg hno] at h
    exact h

/-! ## What the functions that run callbacks keep -/

namespace KeptByConn
variable {May Closing : Nat → ClientLoop → Prop}

theorem callbackIf (k : KeptByConn I R May Closing) (h : I w) {isSet : TcpConnection → Bool}
    {e : TcpConnection → ConnEvent} {c : ConnCallback} (hc : c ≠ .close) :
    (onConn i a (Site.callbackIf isSet e c)).wp I R (fun _ u => I u ∧ R w u) w := by
  simp only [onConn, Site.callbackIf, Code.handle_bind, Code.handle_get, Code.handle_when, Code.handle_modify,
    Code.handle_callback, Code.wp_bind, Code.wp_get, Code.wp_pure]
  refine Code.wp_when (fun _ => ?_) (fun _ => ⟨h, k.refl w⟩)
  obtain ⟨hi, hr⟩ := k.quiet h (Site.Quiet.record (e (w.site i).conn))
  simp only [Code.wp_bind, Code.wp_modify]
  cases c with
  | close => exact absurd rfl hc
  | _ => exact ⟨hi, fun u hu hru => ⟨hu, k.trans hr hru⟩⟩

theorem closeCallback (k : KeptByConn I R May Closing) {v : ClientLoop} (hmay : May i v) (hr : R v w) (h : I w)
    (hclosing : Closing i w) :
    (onConn i a (Site.callbackIf (·.closeCallback) (fun _ => .closeCallback) .close)).wp I R
      (fun _ u => I u ∧ R v u) w := by
  simp only [onConn, Site.callbackIf, Code.handle_bind, Code.handle_get, Code.handle_when, Code.handle_modify,
    Code.handle_callback, Code.wp_bind, Code.wp_get, Code.wp_pure]
  refine Code.wp_when (fun _ => ?_) (fun _ => ⟨h, hr⟩)
  have hquiet : (w.site i).Quiet ((w.site i).record .closeCallback) := .record _
  obtain ⟨hi, hr'⟩ := k.quiet h hquiet
  have hclosing' := k.closing hclosing hquiet
  simp only [Code.wp_bind, Code.wp_modify]
  exact wp_removeConnection (k.dead hclosing') (k.remove hi hclosing' hmay (k.trans hr hr'))

theorem handleClose (k : KeptByConn I R May Closing) (h : I w) (hmay : May i w) :
    (onConn i a Site.handleClose).wp I R (fun _ u => I u ∧ R w u) w := by
  have hquiet : (w.site i).Quiet ((w.site i).assertState .closeState
      ((w.site i).conn.state = .kConnected ∨ (w.site i).conn.state = .kDisconnecting)) := .assertState
  obtain ⟨h₁, hr₁⟩ := k.quiet h hquiet
  obtain ⟨h₂, hr₂, hclosing⟩ := k.down h₁ (k.may hmay hquiet)
  -- The connection callback finds the connection down, and the close callback finds it as it left it.
  simp only [onConn, Site.handleClose, Site.runConnectionCallback, Code.handle_bind, Code.handle_modify,
    Code.wp_bind, Code.wp_modify]
  refine Code.wp_mono (fun _ u hu => ?_) (k.callbackIf h₂ (by simp))
  exact k.closeCallback hmay (k.trans hr₁ (k.trans hr₂ hu.2)) hu.1 (k.stays hclosing hu.2)

theorem modify (k : KeptByConn I R May Closing) (h : I w) {f : Site → Site} (hf : (w.site i).Quiet (f (w.site i))) :
    (onConn i a (Code.modify f)).wp I R (fun _ u => I u ∧ R w u) w :=
  k.quiet h hf

theorem forceCloseInLoop (k : KeptByConn I R May Closing) (h : I w) (hmay : Site.Open (w.site i) → May i w) :
    (onConn i a Site.forceCloseInLoop).wp I R (fun _ u => I u ∧ R w u) w := by
  simp only [onConn, Site.forceCloseInLoop, Code.handle_bind, Code.handle_get, Code.handle_when, Code.wp_bind,
    Code.wp_get, Code.wp_pure]
  exact Code.wp_when (fun hopen => k.handleClose h (hmay hopen)) (fun _ => ⟨h, k.refl w⟩)

theorem forceClose (k : KeptByConn I R May Closing) (h : I w) (hmay : Site.Open (w.site i) → May i w) :
    (onConn i a Site.forceClose).wp I R (fun _ u => I u ∧ R w u) w := by
  simp only [onConn, Site.forceClose, Code.handle_bind, Code.handle_get, Code.handle_when, Code.handle_modify,
    Code.wp_bind, Code.wp_get, Code.wp_pure]
  refine Code.wp_when (fun hopen => ?_) (fun _ => ⟨h, k.refl w⟩)
  have hquiet : (w.site i).Quiet ((w.site i).setState .kDisconnecting) := by
    refine ⟨.refl _, rfl, ?_⟩
    rcases hopen with hs | hs
    · exact Or.inr ⟨hs, rfl⟩
    · exact Or.inl hs.symm
  obtain ⟨hi, hr⟩ := k.quiet h hquiet
  simp only [Code.wp_bind, Code.wp_modify]
  refine Code.wp_mono (fun _ u hu => ⟨hu.1, k.trans hr hu.2⟩)
    (k.forceCloseInLoop hi fun _ => k.may (hmay hopen) hquiet)

theorem handleRead (k : KeptByConn I R May Closing) (h : I w) {r : ReadResult} (hmay : r.isEof = true → May i w) :
    (onConn i a (Site.handleRead r)).wp I R (fun _ u => I u ∧ R w u) w := by
  cases r with
  | error errno => exact ⟨h, k.refl w⟩
  | read data =>
    simp only [onConn, Site.handleRead, Code.handle_bind, Code.handle_get, Code.handle_ite, Code.handle_modify,
      Code.wp_bind, Code.wp_get, Code.wp_pure, Site.take_readCapacity_isEmpty]
    refine Code.wp_ite (fun heof => k.handleClose h (hmay heof)) (fun _ => ?_)
    obtain ⟨hi, hr⟩ := k.quiet h (i := i)
      (s := (w.site i).readFd (data.take (w.site i).conn.inputBuffer.readCapacity)) ⟨.refl _, rfl, Or.inl rfl⟩
    simp only [Code.wp_bind, Code.wp_modify]
    exact Code.wp_mono (fun _ u hu => ⟨hu.1, k.trans hr hu.2⟩) (k.callbackIf hi (by simp))

/-- A dispatch closes a connection at most once, unless a second close is harmless too. -/
theorem handleEvent (k : KeptByConn I R May Closing) (h : I w) {revents : Mask} {r : ReadResult}
    {result : WriteResult}
    (hmay : revents.hangsUp ∨ revents.isReadable ∧ r.isEof = true → May i w)
    (hagain : revents.hangsUp → revents.isReadable → r.isEof = true → ∀ u, R w u → May i u) :
    (onConn i a (Site.handleEvent revents r result)).wp I R (fun _ u => I u ∧ R w u) w := by
  have hguard : ∀ (u : ClientLoop) (b : Bool), (u.site i).Quiet ((u.site i).setEventHandling b) :=
    fun _ _ => ⟨.refl _, rfl, Or.inl rfl⟩
  obtain ⟨h₀, hr₀⟩ := k.quiet h (hguard w true)
  simp only [onConn, Site.handleEvent, Channel.handleEventWithGuard, Code.handle_bind, Code.handle_modify,
    Code.handle_when, Code.handle_pure, Code.wp_bind, Code.wp_modify]
  refine Code.wp_mono (Q := fun _ u => I u ∧ R w u ∧ (revents.isReadable → r.isEof = true → May i u))
    (fun _ u hu => ?_) (Code.wp_when (fun hhup => ?_) fun hno => ?_)
  · refine Code.wp_mono (Q := fun _ v => v = u) (fun _ v hv => ?_) (Code.wp_when (fun _ => rfl) (fun _ => rfl))
    subst hv
    refine Code.wp_mono (Q := fun _ u => I u ∧ R w u) (fun _ u hu => ?_)
      (Code.wp_when (fun hread => ?_) fun _ => ⟨hu.1, hu.2.1⟩)
    · have hend : ∀ {v}, I v → R w v → I (v.setSite i ((v.site i).setEventHandling false)) ∧
          R w (v.setSite i ((v.site i).setEventHandling false)) := fun hi hr =>
        ⟨(k.quiet hi (hguard _ false)).1, k.trans hr (k.quiet hi (hguard _ false)).2⟩
      refine Code.wp_when (fun _ => ?_) (fun _ => hend hu.1 hu.2)
      have hwrite : (u.site i).Quiet ((u.site i).handleWrite result) :=
        (Site.Quiet.keptByOutput _).handleWrite (.refl _)
      obtain ⟨hi, hr⟩ := k.quiet hu.1 hwrite
      exact hend hi (k.trans hu.2 hr)
    · exact Code.wp_mono (fun _ v hv => ⟨hv.1, k.trans hu.2.1 hv.2⟩) (k.handleRead hu.1 (hu.2.2 hread))
  · refine Code.wp_mono (fun _ u hu => ?_) (k.handleClose h₀ (k.may (hmay (Or.inl hhup)) (hguard w true)))
    have hr := k.trans hr₀ hu.2
    exact ⟨hu.1, hr, fun hread heof => hagain hhup hread heof u hr⟩
  · exact ⟨h₀, hr₀, fun hread heof => k.may (hmay (Or.inr ⟨hread, heof⟩)) (hguard w true)⟩

theorem runFunctor (k : KeptByConn I R May Closing) (h : I w) {f : Functor} {result : WriteResult}
    (hmay : ∀ j, f = .forceCloseInLoop j → Site.Open (w.site i) → May i w) :
    (onConn i a (Site.runFunctor f result)).wp I R (fun _ u => I u ∧ R w u) w := by
  have hcallback : ∀ {p : Site → Bool} {c : ConnCallback}, c ≠ .close →
      (onConn i a (do let s ← Code.get; Code.when (p s) (Code.callback c))).wp I R (fun _ u => I u ∧ R w u) w := by
    intro p c hc
    simp only [onConn, Code.handle_bind, Code.handle_get, Code.handle_when, Code.handle_callback, Code.wp_bind,
      Code.wp_get, Code.wp_pure]
    refine Code.wp_when (fun _ => ?_) (fun _ => ⟨h, k.refl w⟩)
    cases c with
    | close => exact absurd rfl hc
    | _ => exact ⟨h, fun u hu hr => ⟨hu, hr⟩⟩
  cases f with
  | sendInLoop _ m => exact k.modify h ((Site.Quiet.keptByOutput _).sendInLoop (.refl _))
  | shutdownInLoop _ => exact k.modify h ((Site.Quiet.keptByOutput _).shutdownInLoop (.refl _))
  | forceCloseInLoop j => exact k.forceCloseInLoop h (hmay j rfl)
  | startReadInLoop _ => exact k.modify h .startReadInLoop
  | stopReadInLoop _ => exact k.modify h .stopReadInLoop
  | writeComplete _ => exact hcallback (p := fun s => s.conn.writeCompleteCallback) (by simp)
  | highWaterMark _ len => exact hcallback (p := fun s => s.conn.highWaterMarkCallback) (by simp)
  | resetChannel _ _ => exact ⟨h, k.refl w⟩

end KeptByConn

/-! ## Connectors -/

theorem connectorSite_setConnectorSite (k : Nat) (s : ConnectorSite) (w : ClientLoop) :
    (w.setConnectorSite k s).connectorSite k = s := by
  simp [setConnectorSite, connectorSite, onClient]

theorem setConnectorSite_setConnectorSite (k : Nat) (s t : ConnectorSite) (w : ClientLoop) :
    (w.setConnectorSite k t).setConnectorSite k s = w.setConnectorSite k s := by
  simp only [setConnectorSite, onClient, if_true]
  congr
  funext j
  split <;> rfl

theorem onConnector_onConnector (k : Nat) (f g : ConnectorSite → ConnectorSite) (w : ClientLoop) :
    (w.onConnector k f).onConnector k g = w.onConnector k (g ∘ f) := by
  rw [onConnector, onConnector, connectorSite_setConnectorSite, setConnectorSite_setConnectorSite]
  rfl

/-- An attempt has succeeded, and its socket is passed on or closed. -/
def succeed (k : Nat) (e : SocketEvent) : ClientLoop → ClientLoop :=
  onConnector k (ConnectorSite.socketEvent e ∘ ConnectorSite.setState .kConnected)

theorem onConnector_handleError (w : ClientLoop) (k : Nat) :
    w.onConnector k ConnectorSite.handleError =
      if (w.connectorSite k).connector.state = .kConnecting then
        (w.onConnector k ConnectorSite.removeAndResetChannel).onConnector k
          (ConnectorSite.retry (w.connectorSite k).sockfd)
      else w.onConnector k id := by
  rw [onConnector, ConnectorSite.handleError]
  split
  · rw [onConnector_onConnector]
    rfl
  · rfl

/-- A connection is made and established, up to the connection callback. -/
def established (k sockfd : Nat) (w : ClientLoop) : ClientLoop :=
  let v := w.addConnection k sockfd
  let v := v.setSite w.nextConn (v.site w.nextConn).establish
  v.setSite w.nextConn ((v.site w.nextConn).record (.connectionCallback (v.conns w.nextConn).state))

theorem wp_newConnection {k sockfd : Nat} (h : I (w.established k sockfd))
    (hQ : ∀ u, I u → R (w.established k sockfd) u → Q () u) : (newConnection k sockfd).wp I R Q w := by
  simp only [newConnection, Site.connectEstablished, Site.runConnectionCallback, Site.callbackIf, Code.handle_bind,
    Code.handle_get, Code.handle_when, Code.handle_modify, Code.handle_callback, Code.wp_bind, Code.wp_get,
    Code.wp_modify, Code.wp_pure]
  refine Code.wp_when (fun _ => ⟨h, hQ⟩) (fun hno => ?_)
  simp only [site_setSite, (Site.establish_spec _).2.2.2] at hno
  simp [site, addConnection] at hno

end Rules
end ClientLoop

/-- The dispatch of the channel of a connector that is a part of a state: `A` holds up to the write callback, `B` in it
    once the channel of the socket is removed, and `C` after it. -/
theorem ConnectorSite.wp_handleEvent {τ D : Type} {get : τ → ConnectorSite} {set : ConnectorSite → τ → τ}
    {answer : Nat → Code τ D Unit} {I A C : τ → Prop} {R : τ → τ → Prop} {Q : Unit → τ → Prop} {B : Nat → τ → Prop}
    {w : τ} {n soError : Nat} {revents : Mask} {isSelfConnect : Bool}
    (hget : ∀ s u, get (set s u) = s) (hset : ∀ s t u, set s (set t u) = set s u)
    (hguard : A (set ((get w).setEventHandling n true) w))
    (herror : ∀ u, A u → A (set (get u).handleError u))
    (hskip : ∀ u, A u → C u)
    (hidle : ∀ u b, A u → C (set ((get u).assertThat .writeDisconnected b) u))
    (hremove : ∀ u, A u → (get u).connector.state = .kConnecting →
      B (get u).sockfd (set (get u).removeAndResetChannel u))
    (hretry : ∀ u fd, B fd u → C (set ((get u).retry fd) u))
    (hclose : ∀ u fd, B fd u → C (set (((get u).setState .kConnected).socketEvent (.closed fd)) u))
    (hnew : ∀ u fd, B fd u →
      (answer fd).wp I R (fun _ v => C v) (set (((get u).setState .kConnected).socketEvent (.passed fd)) u))
    (hend : ∀ u, C u → Q () (set ((get u).setEventHandling n false) u)) :
    ((ConnectorSite.handleEvent n revents soError isSelfConnect).handle get set answer).wp I R Q w := by
  have hwrite : ∀ u, A u → ((ConnectorSite.handleWrite soError isSelfConnect).handle get set answer).wp I R
      (fun _ v => C v) u := by
    intro u hu
    simp only [ConnectorSite.handleWrite, Code.handle_bind, Code.handle_get, Code.handle_ite, Code.handle_modify,
      Code.handle_callback, Code.wp_bind, Code.wp_get, Code.wp_pure]
    refine Code.wp_ite (fun hs => ?_) (fun _ => hidle u _ hu)
    simp only [Code.wp_bind, Code.wp_modify]
    have hB := hremove u hu hs
    refine Code.wp_ite (fun _ => hretry _ _ hB) (fun _ => ?_)
    simp only [Code.wp_bind, Code.wp_modify]
    refine Code.wp_ite (fun _ => ?_) (fun _ => ?_)
    · have hnew' := hnew _ _ hB
      simpa only [Code.wp_bind, Code.wp_modify, Code.wp_pure, hget, hset] using hnew'
    · have hclose' := hclose _ _ hB
      simpa only [Code.wp_modify, hget, hset] using hclose'
  simp only [ConnectorSite.handleEvent, Channel.handleEventWithGuard, Code.handle_bind, Code.handle_modify,
    Code.handle_when, Code.handle_pure, Code.wp_bind, Code.wp_modify]
  have hquiet : ∀ {p : Prop} [Decidable p] {v : τ}, A v →
      (Code.when p (pure ()) : Code τ D Unit).wp I R (fun _ u => A u) v :=
    fun hv => Code.wp_when (fun _ => hv) (fun _ => hv)
  refine Code.wp_mono (fun _ u hu => ?_) (hquiet hguard)
  refine Code.wp_mono (Q := fun _ u => A u) (fun _ u hu => ?_) (Code.wp_when (fun _ => herror u hu) (fun _ => hu))
  refine Code.wp_mono (fun _ u hu => ?_) (hquiet hu)
  exact Code.wp_mono (fun _ u hu => hend u hu) (Code.wp_when (fun _ => hwrite u hu) (fun _ => hskip u hu))

end Muduo
