import Muduo.Theorems.ClientRules

/-! # Reconnecting

The channel of an attempt is destroyed by a functor, some time after it was removed, and the functor destroys
whatever channel the connector has then. A client whose connection is closed while the functor is queued starts
the next attempt too early: `connecting` finds the old channel, and the functor destroys the new one. Between
the two lies a condition on the calls of `forceClose` and on the retry timers, under which a connector has at
most one channel, and at most one reset, which is for that channel. -/

namespace Muduo
open Lib

/-! ## The resets in the queue -/

theorem filterMap_reset? (k : Nat) (fs : List Functor) :
    (fs.filter Functor.isReset).filterMap (Functor.reset? k) = fs.filterMap (Functor.reset? k) := by
  rw [List.filterMap_filter]
  congr
  funext f
  cases f <;> rfl

structure EventLoop.SameResets (l m : EventLoop) : Prop where
  handling : m.eventHandling = l.eventHandling
  functors : m.queue.functors.filter Functor.isReset = l.queue.functors.filter Functor.isReset
  pending : m.queue.pendingFunctors.filter Functor.isReset = l.queue.pendingFunctors.filter Functor.isReset

namespace EventLoop.SameResets
variable {l m n : EventLoop}

theorem of_quiet (h : l.Quiet m) : l.SameResets m := ⟨h.handling, h.functors, h.pending⟩

theorem trans (h : l.SameResets m) (h' : m.SameResets n) : l.SameResets n :=
  ⟨h'.handling.trans h.handling, h'.functors.trans h.functors, h'.pending.trans h.pending⟩

theorem resets (h : l.SameResets m) (k : Nat) : m.resets k = l.resets k := by
  simp only [EventLoop.resets, List.filterMap_append]
  rw [← filterMap_reset? k m.queue.functors, ← filterMap_reset? k m.queue.pendingFunctors, h.functors, h.pending,
    filterMap_reset?, filterMap_reset?]

end EventLoop.SameResets

/-! ## One connector -/

/-- A connector has a channel while an attempt is in progress, and from its end until the reset that was queued
    for that channel. -/
structure ConnectorOk (c : Connector) (resets : List Nat) : Prop where
  free : c.channel = none → c.state ≠ .kConnecting ∧ resets = []
  connecting : c.state = .kConnecting → resets = []
  ended : ∀ ch, c.channel = some ch → c.state ≠ .kConnecting → resets = [ch.id.attempt] ∧ ch.addedToLoop = false
  failed : .connectingNoChannel ∉ c.failed ∧ .destroyedAdded ∉ c.failed
  log : ∀ r ∈ c.resets, r.destroyed = some r.queuedFor

/-- The attempts of a connector: the one in progress, and those that wait for a timer. -/
def Connector.attempts (c : Connector) : Nat := (if c.state = .kConnecting then 1 else 0) + c.retryTimers.length

namespace ConnectorOk
variable {s : ConnectorSite} {resets : List Nat} {x : ConnectorAssert} {b : Bool} {n : Nat}

theorem channel_eq_none (h : ConnectorOk s.connector []) (hs : s.connector.state ≠ .kConnecting) :
    s.connector.channel = none := by
  cases hc : s.connector.channel with
  | none => rfl
  | some ch => cases (h.ended ch hc hs).1

theorem assertThat (h : ConnectorOk s.connector resets) (hx : x ≠ .connectingNoChannel ∧ x ≠ .destroyedAdded) :
    ConnectorOk (s.assertThat x b).connector resets := by
  unfold ConnectorSite.assertThat
  split
  · exact h
  · refine ⟨h.free, h.connecting, h.ended, ?_, h.log⟩
    simp [h.failed, hx.1.symm, hx.2.symm]

theorem setEventHandling (h : ConnectorOk s.connector resets) :
    ConnectorOk (s.setEventHandling n b).connector resets := by
  unfold ConnectorSite.setEventHandling
  split
  · exact h
  · rename_i c hc
    split
    · refine ⟨fun hnone => ?_, h.connecting, fun ch hch hs => ?_, h.failed, h.log⟩
      · cases hnone
      · obtain rfl := Option.some.inj hch
        exact h.ended c hc hs
    · exact h

theorem socketEvent {e : SocketEvent} (h : ConnectorOk s.connector resets) :
    ConnectorOk (s.socketEvent e).connector resets :=
  ⟨h.free, h.connecting, h.ended, h.failed, h.log⟩

/-- An attempt that begins with no channel makes the only one. -/
theorem beginsConnecting (h : ConnectorOk s.connector []) (hc : s.connector.channel = none) (fd : Nat) :
    ConnectorOk (s.connecting fd).connector [] ∧ (s.connecting fd).connector.state = .kConnecting ∧
      (s.connecting fd).connector.id = s.connector.id ∧
      (s.connecting fd).connector.retryTimers = s.connector.retryTimers := by
  have heq : ((s.setState .kConnecting).assertThat .connectingNoChannel
      (s.setState .kConnecting).connector.channel.isNone).destroyChannel = s.setState .kConnecting := by
    simp [ConnectorSite.assertThat, ConnectorSite.destroyChannel, ConnectorSite.setState, hc]
  simp only [ConnectorSite.connecting, ConnectorSite.makeChannel, heq]
  refine ⟨?_, rfl, rfl, rfl⟩
  exact {
    free := fun hnone => by cases hnone
    connecting := fun _ => rfl
    ended := fun ch _ hne => absurd rfl hne
    failed := h.failed
    log := h.log }

end ConnectorOk

/-- The attempt of a connector is over, whatever its state says: its channel, if it has one, is removed and about
    to be reset. -/
structure AttemptOver (c : Connector) (resets : List Nat) : Prop where
  free : c.channel = none → resets = []
  ended : ∀ ch, c.channel = some ch → resets = [ch.id.attempt] ∧ ch.addedToLoop = false
  failed : .connectingNoChannel ∉ c.failed ∧ .destroyedAdded ∉ c.failed
  log : ∀ r ∈ c.resets, r.destroyed = some r.queuedFor

section Connector
variable {s : ConnectorSite} {resets : List Nat} {a : Attempt} {n : Nat}

theorem ConnectorOk.attemptOver (h : ConnectorOk s.connector resets) (hs : s.connector.state ≠ .kConnecting) :
    AttemptOver s.connector resets :=
  ⟨fun hc => (h.free hc).2, fun ch hc => h.ended ch hc hs, h.failed, h.log⟩

theorem AttemptOver.ok (h : AttemptOver s.connector resets) (hs : s.connector.state ≠ .kConnecting) :
    ConnectorOk s.connector resets :=
  ⟨fun hc => ⟨hs, h.free hc⟩, fun hc => absurd hc hs, fun ch hc _ => h.ended ch hc, h.failed, h.log⟩

theorem AttemptOver.setState (h : AttemptOver s.connector resets) {t : States} (ht : t ≠ .kConnecting) :
    ConnectorOk (s.setState t).connector resets :=
  AttemptOver.ok (s := s.setState t) ⟨h.free, h.ended, h.failed, h.log⟩ ht

theorem AttemptOver.retry (h : AttemptOver s.connector resets) (ht : s.connector.retryTimers = []) (fd : Nat) :
    ConnectorOk (s.retry fd).connector resets ∧ (s.retry fd).connector.id = s.connector.id ∧
      (s.retry fd).connector.attempts ≤ 1 := by
  have hok : ConnectorOk ((s.socketEvent (.closed fd)).setState .kDisconnected).connector resets :=
    AttemptOver.setState (s := s.socketEvent (.closed fd)) ⟨h.free, h.ended, h.failed, h.log⟩ (by simp)
  unfold ConnectorSite.retry
  dsimp only
  split
  · refine ⟨⟨hok.free, hok.connecting, hok.ended, hok.failed, hok.log⟩, rfl, ?_⟩
    simp [Connector.attempts, ConnectorSite.setState, ConnectorSite.socketEvent, ht]
  · refine ⟨hok, rfl, ?_⟩
    simp [Connector.attempts, ConnectorSite.setState, ConnectorSite.socketEvent, ht]

theorem attempts_le (hs : s.connector.state ≠ .kConnecting) (ht : s.connector.retryTimers = []) :
    s.connector.attempts ≤ 1 := by
  simp [Connector.attempts, hs, ht]

theorem state_of_attempts {c : Connector} (h : c.attempts = 0) : c.state ≠ .kConnecting ∧ c.retryTimers = [] := by
  rw [Connector.attempts] at h
  split at h
  · omega
  · exact ⟨‹_›, List.length_eq_zero_iff.mp (by omega)⟩

theorem ConnectorOk.connect (h : ConnectorOk s.connector []) (hs : s.connector.state ≠ .kConnecting)
    (ht : s.connector.retryTimers = []) :
    ConnectorOk (s.connect a).connector [] ∧ (s.connect a).connector.id = s.connector.id ∧
      (s.connect a).connector.attempts ≤ 1 := by
  have hcreated : ConnectorOk (s.socketEvent (.created a.sockfd)).connector [] := h.socketEvent
  unfold ConnectorSite.connect
  dsimp only
  split
  · obtain ⟨hok, hstate, hid, htimers⟩ := hcreated.beginsConnecting (h.channel_eq_none hs) a.sockfd
    refine ⟨hok, hid, ?_⟩
    rw [Connector.attempts, hstate, htimers]
    simp [ConnectorSite.socketEvent, ht]
  · split
    · exact (hcreated.attemptOver hs).retry ht _
    · exact ⟨hcreated.socketEvent, rfl, attempts_le hs ht⟩

theorem ConnectorOk.startInLoop (h : ConnectorOk s.connector []) (hs : s.connector.state ≠ .kConnecting)
    (ht : s.connector.retryTimers = []) :
    ConnectorOk (s.startInLoop a).connector [] ∧ (s.startInLoop a).connector.id = s.connector.id ∧
      (s.startInLoop a).connector.attempts ≤ 1 := by
  have hassert : ∀ b, (s.assertThat .startDisconnected b).connector.state = s.connector.state ∧
      (s.assertThat .startDisconnected b).connector.retryTimers = s.connector.retryTimers ∧
      (s.assertThat .startDisconnected b).connector.id = s.connector.id := by
    intro b
    unfold ConnectorSite.assertThat
    split <;> exact ⟨rfl, rfl, rfl⟩
  obtain ⟨hstate, htimers, hid⟩ := hassert (s.connector.state = .kDisconnected)
  have hok : ConnectorOk (s.assertThat .startDisconnected (s.connector.state = .kDisconnected)).connector [] :=
    h.assertThat (by decide)
  have hs' := hstate.symm ▸ hs
  have ht' := htimers.trans ht
  unfold ConnectorSite.startInLoop
  dsimp only
  split
  · obtain ⟨hconnect, hid', hattempts⟩ := hok.connect (a := a) hs' ht'
    exact ⟨hconnect, hid'.trans hid, hattempts⟩
  · exact ⟨hok, hid, attempts_le hs' ht'⟩

theorem ConnectorOk.restart (h : ConnectorOk s.connector []) (hs : s.connector.state ≠ .kConnecting)
    (ht : s.connector.retryTimers = []) :
    ConnectorOk (s.restart a).connector [] ∧ (s.restart a).connector.id = s.connector.id ∧
      (s.restart a).connector.attempts ≤ 1 := by
  have hset : ConnectorOk (s.setState .kDisconnected).connector [] := (h.attemptOver hs).setState (by simp)
  unfold ConnectorSite.restart
  exact ConnectorOk.startInLoop ⟨hset.free, hset.connecting, hset.ended, hset.failed, hset.log⟩
    (fun hconnecting => by cases hconnecting) ht

theorem ConnectorOk.start (h : ConnectorOk s.connector []) (hs : s.connector.state ≠ .kConnecting)
    (ht : s.connector.retryTimers = []) :
    ConnectorOk (s.start a).connector [] ∧ (s.start a).connector.id = s.connector.id ∧
      (s.start a).connector.attempts ≤ 1 := by
  unfold ConnectorSite.start
  exact ConnectorOk.startInLoop ⟨h.free, h.connecting, h.ended, h.failed, h.log⟩ hs ht

theorem ConnectorOk.removeAndResetChannel (h : ConnectorOk s.connector []) (hs : s.connector.state = .kConnecting) :
    ∃ n, AttemptOver s.removeAndResetChannel.connector [n] ∧
      s.removeAndResetChannel.loop.queue = s.loop.queue.queueInLoop true (.resetChannel s.connector.id n) ∧
      s.removeAndResetChannel.loop.eventHandling = s.loop.eventHandling ∧
      s.removeAndResetChannel.connector.id = s.connector.id ∧
      s.removeAndResetChannel.connector.retryTimers = s.connector.retryTimers := by
  cases hc : s.connector.channel with
  | none => exact absurd hs (h.free hc).1
  | some ch =>
    have hhandling := (ConnectorSite.removes_removeAndResetChannel hc).handling
    rw [ConnectorSite.removeAndResetChannel_eq hc] at hhandling ⊢
    refine ⟨ch.id.attempt, ⟨by simp, fun ch' hch' => ?_, h.failed, h.log⟩, ?_, hhandling, rfl, rfl⟩
    · obtain rfl := Option.some.inj hch'
      exact ⟨by rw [Channel.remove_id]; rfl, rfl⟩
    · simp only [EventLoop.queueInLoop, Channel.remove_queue]
      rfl

theorem destroyChannel_connector {ch : Channel} (hc : s.connector.channel = some ch)
    (hadded : ch.addedToLoop = false) :
    s.destroyChannel.connector =
      { s.connector with
        channel := none
        failed := if ch.eventHandling then .destroyedHandling :: s.connector.failed else s.connector.failed } := by
  cases he : ch.eventHandling <;>
    simp [ConnectorSite.destroyChannel, ConnectorSite.assertThat, ConnectorSite.setChannel, hc, hadded, he]

theorem AttemptOver.resetChannel (h : AttemptOver s.connector [n]) (hs : s.connector.state ≠ .kConnecting) :
    ConnectorOk (s.resetChannel n).connector [] ∧ (s.resetChannel n).connector.id = s.connector.id ∧
      (s.resetChannel n).connector.attempts = s.connector.attempts := by
  cases hc : s.connector.channel with
  | none => cases h.free hc
  | some ch =>
    obtain ⟨hn, hadded⟩ := h.ended ch hc
    obtain rfl := (List.cons.inj hn).1
    rw [ConnectorSite.resetChannel, destroyChannel_connector (by exact hc) hadded, hc]
    refine ⟨⟨fun _ => ⟨hs, rfl⟩, fun hc => absurd hc hs, by simp, ?_, ?_⟩, rfl, rfl⟩
    · dsimp only
      split
      · simpa using h.failed
      · exact h.failed
    · exact List.forall_mem_cons.mpr ⟨rfl, h.log⟩

end Connector

/-! ## The clients of a loop -/

/-- A client has at most one of: a connection, an attempt in progress, a retry timer. -/
structure ClientOk (k : Nat) (c : TcpClient) (resets : List Nat) : Prop where
  connector : ConnectorOk c.connector resets
  id : c.connector.id = k
  busy : (if c.connection.isSome then 1 else 0) + c.connector.attempts ≤ 1

theorem ClientOk.of_connection {k i : Nat} {c : TcpClient} {resets : List Nat} (h : ClientOk k c resets)
    (hc : c.connection = some i) : c.connector.state ≠ .kConnecting ∧ c.connector.retryTimers = [] := by
  have hbusy := h.busy
  rw [hc, Option.isSome_some, if_pos rfl] at hbusy
  exact state_of_attempts (by omega)

theorem ClientOk.of_connecting {k : Nat} {c : TcpClient} {resets : List Nat} (h : ClientOk k c resets)
    (hs : c.connector.state = .kConnecting) : c.connection = none ∧ c.connector.retryTimers = [] := by
  have hbusy := h.busy
  rw [Connector.attempts, if_pos hs] at hbusy
  split at hbusy
  · omega
  · rename_i hnone
    exact ⟨by simpa using hnone, List.length_eq_zero_iff.mp (by omega)⟩

namespace ClientLoop

/-- An open connection is the connection of its client, and a connection that waits is older than any reset that
    is queued. Resets are queued while events are handled and gone before the next poll. -/
structure ConnectionsOk (w : ClientLoop) : Prop where
  alive : ∀ i, Site.Open (w.site i) → (w.clients (w.owner i)).connection = some i
  waiting : ∀ i, .connection i ∈ w.toDispatch →
    i < w.nextConn ∧ ((w.clients (w.owner i)).connection = some i → w.loop.resets (w.owner i) = [])
  handling : w.loop.eventHandling = true → w.loop.queue.functors.filter Functor.isReset = []
  running : w.loop.eventHandling = false → w.loop.queue.pendingFunctors.filter Functor.isReset = []

/-- Every client has at most one channel, and a reset is for the channel of its client. -/
structure Reconnecting (w : ClientLoop) : Prop extends ConnectionsOk w where
  clients : ∀ k, ClientOk k (w.clients k) (w.loop.resets k)

/-- What callbacks leave alone: the resets, and a connection that is being closed. -/
structure SameResets (v w : ClientLoop) : Prop where
  loop : v.loop.SameResets w.loop
  waiting : w.waiting = v.waiting
  owner : w.owner = v.owner
  closing : ∀ i, (v.conns i).state = .kDisconnected → (v.clients (v.owner i)).connection = some i →
    (w.conns i).state = .kDisconnected ∧ (w.clients (v.owner i)).connection = some i

def MayReconnect (i : Nat) (w : ClientLoop) : Prop := Site.Open (w.site i) ∧ w.loop.resets (w.owner i) = []

def Disconnecting (i : Nat) (w : ClientLoop) : Prop :=
  (w.conns i).state = .kDisconnected ∧ (w.clients (w.owner i)).connection = some i ∧ w.loop.resets (w.owner i) = []

section Steps
variable {u v w : ClientLoop} {i k : Nat} {s : Site} {f : ConnectorSite → ConnectorSite}

theorem SameResets.refl (w : ClientLoop) : SameResets w w :=
  ⟨.of_quiet (.refl _), rfl, rfl, fun _ hs hc => ⟨hs, hc⟩⟩

theorem SameResets.trans (h : SameResets u v) (h' : SameResets v w) : SameResets u w := by
  refine ⟨h.loop.trans h'.loop, h'.waiting.trans h.waiting, h'.owner.trans h.owner, fun i hs hc => ?_⟩
  obtain ⟨hs, hc⟩ := h.closing i hs hc
  have h'' := h'.closing i hs (by rw [h.owner]; exact hc)
  rw [h.owner] at h''
  exact h''

/-- A step that leaves the resets and the waiting channels alone and makes no connection. -/
theorem ConnectionsOk.of_same (h : ConnectionsOk v) (hloop : v.loop.SameResets w.loop)
    (hwaiting : w.waiting = v.waiting) (hnext : w.nextConn = v.nextConn) (howner : w.owner = v.owner)
    (halive : ∀ i, Site.Open (w.site i) → (w.clients (v.owner i)).connection = some i)
    (hconn : ∀ i, (w.clients (v.owner i)).connection = some i → (v.clients (v.owner i)).connection = some i) :
    ConnectionsOk w where
  alive i hi := howner ▸ halive i hi
  waiting i hi := by
    rw [toDispatch, hwaiting] at hi
    obtain ⟨hlt, hresets⟩ := h.waiting i hi
    rw [hnext, howner, hloop.resets]
    exact ⟨hlt, fun hc => hresets (hconn i hc)⟩
  handling hh := hloop.functors.trans (h.handling (hloop.handling ▸ hh))
  running hh := hloop.pending.trans (h.running (hloop.handling ▸ hh))

/-- A quiet step of connection `i`, its establishment or its disconnect. -/
theorem Reconnecting.setSite (h : Reconnecting w) (hs : w.loop.Quiet s.loop)
    (hopen : Site.Open s → (w.clients (w.owner i)).connection = some i)
    (hdead : (w.conns i).state = .kDisconnected → s.conn.state = .kDisconnected) :
    Reconnecting (w.setSite i s) ∧ SameResets w (w.setSite i s) := by
  have hsame := EventLoop.SameResets.of_quiet hs
  refine ⟨⟨h.toConnectionsOk.of_same hsame rfl rfl rfl (fun j hj => ?_) fun _ hc => hc, fun k => ?_⟩,
    hsame, rfl, rfl, fun j hj hc => ⟨?_, hc⟩⟩
  · by_cases hji : j = i
    · subst hji
      rw [site_setSite] at hj
      exact hopen hj
    · refine h.alive j ?_
      simpa [Site.Open, site, setSite_conns, hji] using hj
  · rw [setSite_clients, setSite_loop, hsame.resets]
    exact h.clients k
  · rw [setSite_conns]
    split
    · rename_i hji
      exact hdead (hji ▸ hj)
    · exact hj

/-- The client of a connection that is down removes it, and may start the next attempt. -/
theorem Reconnecting.remove {a : Attempt} (h : Reconnecting w) (hclosing : Disconnecting i w) :
    Reconnecting (w.remove i a) ∧ w.loop.SameResets (w.remove i a).loop := by
  obtain ⟨hdead, hconn, hresets⟩ := hclosing
  obtain ⟨hothers, hnone, hconnector⟩ := remove_clients w i a
  obtain ⟨l, hremoves, hqueue, hquiet⟩ := remove_loop w i a
  have hl : w.loop.SameResets l := ⟨hremoves.handling, by rw [hqueue], by rw [hqueue]⟩
  have hsame : w.loop.SameResets (w.remove i a).loop := hl.trans (.of_quiet hquiet)
  have hother : ∀ j, (w.remove i a).clients (w.owner j) = w.clients (w.owner j) ∨ w.owner j = w.owner i := by
    intro j
    by_cases hj : w.owner j = w.owner i
    · exact Or.inr hj
    · exact Or.inl (hothers _ hj)
  refine ⟨⟨h.toConnectionsOk.of_same hsame (remove_waiting w i a) (remove_nextConn w i a) (remove_owner w i a)
    (fun j hj => ?_) (fun j hj => ?_), fun k => ?_⟩, hsame⟩
  · -- An open connection is not the one that is removed, so its client is another one.
    have hopen : Site.Open (w.site j) := by
      rw [Site.Open, site, (remove_conns w i a j).2] at hj
      exact hj
    have halive := h.alive j hopen
    rcases hother j with heq | heq
    · rw [heq, halive]
    · rw [heq, hconn] at halive
      obtain rfl := Option.some.inj halive
      exact absurd hdead ((Site.open_iff _).mp hopen).2
  · rcases hother j with heq | heq
    · rw [← heq, hj]
    · rw [heq, hnone] at hj
      cases hj
  · rw [hsame.resets]
    by_cases hk : k = w.owner i
    · subst hk
      have hk := h.clients (w.owner i)
      obtain ⟨hstate, htimers⟩ := hk.of_connection hconn
      rw [hresets]
      have hok := hresets ▸ hk.connector
      rcases hconnector with heq | ⟨l', heq⟩
      · refine ⟨heq ▸ hok, heq ▸ hk.id, ?_⟩
        rw [hnone, heq]
        simp [Connector.attempts, hstate, htimers]
      · obtain ⟨hok', hid, hattempts⟩ :=
          ConnectorOk.restart (a := a) (s := ⟨(w.clients (w.owner i)).connector, l'⟩) hok hstate htimers
        exact ⟨heq ▸ hok', heq ▸ hid.trans hk.id, by rw [hnone, heq]; simpa using hattempts⟩
    · rw [hothers k hk]
      exact h.clients k

theorem reconnecting_keptByConn : KeptByConn Reconnecting SameResets MayReconnect Disconnecting where
  refl := .refl
  trans := .trans
  quiet h hs := h.setSite hs.loop (fun hopen => h.alive _ (hs.isOpen.mp hopen)) hs.dead
  may {w i s} h hs := by
    refine ⟨?_, ((EventLoop.SameResets.of_quiet hs.loop).resets _).trans h.2⟩
    rw [site_setSite]
    exact hs.isOpen.mpr h.1
  down {w i} h hmay := by
    have hloop : w.loop.Quiet (w.site i).disconnect.loop := .updateChannel _
    obtain ⟨hd, hr⟩ := h.setSite (i := i) hloop (fun hopen => by rcases hopen with hs | hs <;> cases hs) fun _ => rfl
    refine ⟨hd, hr, ?_, h.alive i hmay.1, (hr.loop.resets _).trans hmay.2⟩
    rw [ClientLoop.down, setSite_conns_self]
    rfl
  closing h hs :=
    ⟨by rw [setSite_conns_self]; exact hs.dead h.1, h.2.1,
      ((EventLoop.SameResets.of_quiet hs.loop).resets _).trans h.2.2⟩
  stays {v w i} h hr := by
    obtain ⟨hs, hc⟩ := hr.closing i h.1 h.2.1
    rw [← hr.owner] at hc
    exact ⟨hs, hc, by rw [hr.loop.resets, hr.owner]; exact h.2.2⟩
  dead h := h.1
  remove {v w i a} h hclosing hmay hr := by
    obtain ⟨hremove, hloop⟩ := h.remove (a := a) hclosing
    refine ⟨hremove, hr.loop.trans hloop, (remove_waiting w i a).trans hr.waiting,
      (remove_owner w i a).trans hr.owner, fun j hs hc => ?_⟩
    obtain ⟨hs', hc'⟩ := hr.closing j hs hc
    refine ⟨(remove_conns w i a j).2.trans hs', ?_⟩
    -- Connection `j` was being closed while `i` was open, so it has another client.
    have hother : v.owner j ≠ w.owner i := by
      intro heq
      rw [heq, hclosing.2.1] at hc'
      obtain rfl := Option.some.inj hc'
      exact ((Site.open_iff _).mp hmay.1).2 hs
    rw [(remove_clients w i a).1 _ hother]
    exact hc'

/-! ## The connector of a client -/

theorem ConnectionsOk.onConnector (h : ConnectionsOk w) (hloop : w.loop.SameResets (f (w.connectorSite k)).loop) :
    ConnectionsOk (w.onConnector k f) := by
  refine h.of_same hloop rfl rfl rfl (fun j hj => ?_) (fun j hj => ?_)
  · rw [onConnector_connection]
    exact h.alive j hj
  · rw [onConnector_connection] at hj
    exact hj

/-- A step of the connector of client `k` that leaves the resets alone. -/
theorem Reconnecting.onConnector (h : Reconnecting w) (hloop : w.loop.Quiet (f (w.connectorSite k)).loop)
    (hok : ConnectorOk (f (w.connectorSite k)).connector (w.loop.resets k))
    (hid : (f (w.connectorSite k)).connector.id = (w.clients k).connector.id)
    (hbusy : (if (w.clients k).connection.isSome then 1 else 0) + (f (w.connectorSite k)).connector.attempts ≤ 1) :
    Reconnecting (w.onConnector k f) := by
  have hsame := EventLoop.SameResets.of_quiet hloop
  refine ⟨h.toConnectionsOk.onConnector hsame, fun j => ?_⟩
  have hresets : (w.onConnector k f).loop.resets j = w.loop.resets j := hsame.resets j
  rw [hresets, onConnector_clients]
  split
  · rename_i hj
    subst hj
    exact ⟨hok, hid.trans (h.clients j).id, hbusy⟩
  · exact h.clients j

theorem Reconnecting.inert (h : Reconnecting w) (hloop : (f (w.connectorSite k)).loop = w.loop)
    (hok : ∀ {resets}, ConnectorOk (w.clients k).connector resets →
      ConnectorOk (f (w.connectorSite k)).connector resets)
    (hid : (f (w.connectorSite k)).connector.id = (w.clients k).connector.id)
    (hattempts : (f (w.connectorSite k)).connector.attempts = (w.clients k).connector.attempts) :
    Reconnecting (w.onConnector k f) :=
  h.onConnector (.of_eq hloop) (hok (h.clients k).connector) hid (hattempts ▸ (h.clients k).busy)

theorem SameResets.onConnector (hloop : w.loop.Quiet (f (w.connectorSite k)).loop) :
    SameResets w (w.onConnector k f) := by
  refine ⟨.of_quiet hloop, rfl, rfl, fun j hs hc => ⟨hs, ?_⟩⟩
  rw [onConnector_connection]
  exact hc

/-- The attempt of client `k` is over, and its state does not say so yet. -/
structure Ending (k : Nat) (w : ClientLoop) : Prop extends ConnectionsOk w where
  others : ∀ j, j ≠ k → ClientOk j (w.clients j) (w.loop.resets j)
  attempt : AttemptOver (w.clients k).connector (w.loop.resets k)
  id : (w.clients k).connector.id = k
  connection : (w.clients k).connection = none
  timers : (w.clients k).connector.retryTimers = []
  events : w.loop.eventHandling = true

theorem Reconnecting.removeAndResetChannel (h : Reconnecting w) (hevents : w.loop.eventHandling = true)
    (hs : (w.clients k).connector.state = .kConnecting) :
    Ending k (w.onConnector k ConnectorSite.removeAndResetChannel) := by
  have hk := h.clients k
  have hnone := hk.connector.connecting hs
  obtain ⟨hconnection, htimers⟩ := hk.of_connecting hs
  obtain ⟨n, hover, hqueue, hhandling, hid, htimers'⟩ :=
    ConnectorOk.removeAndResetChannel (s := w.connectorSite k) (hnone ▸ hk.connector) hs
  have hqueue' : (w.onConnector k ConnectorSite.removeAndResetChannel).loop.queue =
      w.loop.queue.queueInLoop true (.resetChannel k n) := by
    rw [show (w.connectorSite k).connector.id = k from hk.id] at hqueue
    exact hqueue
  have hresets : ∀ j, (w.onConnector k ConnectorSite.removeAndResetChannel).loop.resets j =
      w.loop.resets j ++ if k = j then [n] else [] := fun j => by
    simp only [EventLoop.resets, hqueue', LoopQueue.queueInLoop_functors, LoopQueue.queueInLoop_pendingFunctors,
      ← List.append_assoc, List.filterMap_append]
    split <;> simp [Functor.reset?, *]
  have hself : (w.onConnector k ConnectorSite.removeAndResetChannel).clients k =
      { w.clients k with connector := (w.connectorSite k).removeAndResetChannel.connector } := if_pos rfl
  refine {
    alive := fun j hj => ?_
    waiting := fun j hj => ?_
    handling := ?_
    running := ?_
    others := fun j hj => ?_
    attempt := ?_
    id := ?_
    connection := ?_
    timers := ?_
    events := hhandling.trans hevents }
  · rw [onConnector_connection]
    exact h.alive j hj
  · -- The client has no connection, so none of its connections waits.
    obtain ⟨hlt, hnoReset⟩ := h.waiting j hj
    refine ⟨hlt, fun hc => ?_⟩
    rw [onConnector_connection, onConnector_owner] at hc
    have hother : k ≠ w.owner j := fun heq => by
      rw [← heq, hconnection] at hc
      cases hc
    rw [onConnector_owner, hresets, if_neg hother, List.append_nil]
    exact hnoReset hc
  · intro _
    rw [hqueue', LoopQueue.queueInLoop_functors]
    exact h.handling hevents
  · intro hidle
    exact absurd ((hhandling.trans hevents).symm.trans hidle) (by decide)
  · rw [hresets, if_neg (Ne.symm hj), List.append_nil, onConnector_clients, if_neg hj]
    exact h.clients j
  · rw [hresets, hnone, if_pos rfl, hself]
    exact hover
  · rw [hself]
    exact hid.trans hk.id
  · rw [onConnector_connection]
    exact hconnection
  · rw [hself]
    exact htimers'.trans htimers

theorem Ending.onConnector (h : Ending k w) (hloop : (f (w.connectorSite k)).loop = w.loop)
    (hok : ConnectorOk (f (w.connectorSite k)).connector (w.loop.resets k))
    (hid : (f (w.connectorSite k)).connector.id = (w.clients k).connector.id)
    (hattempts : (f (w.connectorSite k)).connector.attempts ≤ 1) : Reconnecting (w.onConnector k f) := by
  have hloop' : (w.onConnector k f).loop = w.loop := hloop
  refine ⟨h.toConnectionsOk.onConnector (.of_quiet (.of_eq hloop)), fun j => ?_⟩
  rw [hloop', onConnector_clients]
  split
  · rename_i hj
    subst hj
    exact ⟨hok, hid.trans h.id, by simpa [h.connection] using hattempts⟩
  · rename_i hj
    exact h.others j hj

theorem Ending.retry {fd : Nat} (h : Ending k w) : Reconnecting (w.onConnector k (ConnectorSite.retry fd)) := by
  obtain ⟨hok, hid, hattempts⟩ := AttemptOver.retry (s := w.connectorSite k) h.attempt h.timers fd
  exact h.onConnector ConnectorSite.retry_loop hok hid hattempts

theorem Ending.succeed {e : SocketEvent} (h : Ending k w) :
    Reconnecting (w.succeed k e) ∧ ((w.succeed k e).clients k).connection = none ∧
      ((w.succeed k e).clients k).connector.attempts = 0 := by
  have hset : ConnectorOk ((w.connectorSite k).setState .kConnected).connector (w.loop.resets k) :=
    AttemptOver.setState h.attempt (by simp)
  have hattempts : (((w.connectorSite k).setState .kConnected).socketEvent e).connector.attempts = 0 := by
    simp [Connector.attempts, ConnectorSite.setState, ConnectorSite.socketEvent, connectorSite, h.timers]
  refine ⟨h.onConnector rfl hset.socketEvent rfl (hattempts ▸ Nat.zero_le 1), ?_, ?_⟩
  · rw [ClientLoop.succeed, onConnector_connection]
    exact h.connection
  · rw [ClientLoop.succeed, onConnector_clients, if_pos rfl]
    exact hattempts

theorem Reconnecting.addConnection (h : Reconnecting w) (hnone : (w.clients k).connection = none)
    (hattempts : (w.clients k).connector.attempts = 0) (fd : Nat) : Reconnecting (w.addConnection k fd) := by
  have hclients : ∀ j, (w.addConnection k fd).clients j =
      if j = k then { w.clients k with connection := some w.nextConn } else w.clients j := fun _ => rfl
  have howner : ∀ j, (w.addConnection k fd).owner j = if j = w.nextConn then k else w.owner j := fun _ => rfl
  -- Client `k` has no connection so far, so nothing changes for the connections that are there.
  have hold : ∀ j, j ≠ w.nextConn →
      ((w.addConnection k fd).clients ((w.addConnection k fd).owner j)).connection = some j →
      (w.clients (w.owner j)).connection = some j := by
    intro j hj hc
    rw [howner, if_neg hj, hclients] at hc
    split at hc
    · exact absurd (Option.some.inj hc).symm hj
    · exact hc
  refine ⟨⟨fun j hj => ?_, fun j hj => ?_, h.handling, h.running⟩, fun j => ?_⟩
  · by_cases hnew : j = w.nextConn
    · subst hnew
      rw [howner, if_pos rfl, hclients, if_pos rfl]
    · have halive := h.alive j (by simpa [Site.Open, site, ClientLoop.addConnection, hnew] using hj)
      have hother : w.owner j ≠ k := fun heq => by
        rw [heq, hnone] at halive
        cases halive
      rw [howner, if_neg hnew, hclients, if_neg hother, halive]
  · obtain ⟨hlt, hresets⟩ := h.waiting j hj
    refine ⟨Nat.lt_succ_of_lt hlt, fun hc => ?_⟩
    have hne : j ≠ w.nextConn := Nat.ne_of_lt hlt
    have hreset := hresets (hold j hne hc)
    rw [howner, if_neg hne]
    exact hreset
  · rw [hclients]
    split
    · rename_i hj
      subst hj
      exact ⟨(h.clients j).connector, (h.clients j).id, by simp [hattempts]⟩
    · exact h.clients j

theorem Reconnecting.established {fd : Nat} (h : Reconnecting w) (hnone : (w.clients k).connection = none)
    (hattempts : (w.clients k).connector.attempts = 0) : Reconnecting (w.established k fd) := by
  have hadd := h.addConnection hnone hattempts fd
  have hconn : ((w.addConnection k fd).clients ((w.addConnection k fd).owner w.nextConn)).connection =
      some w.nextConn := by simp [ClientLoop.addConnection, onClient]
  have hnew : ((w.addConnection k fd).conns w.nextConn).state = .kConnecting := by simp [ClientLoop.addConnection]
  obtain ⟨hloop, -, -, -⟩ := Site.establish_spec ((w.addConnection k fd).site w.nextConn)
  have hestablish := (hadd.setSite (i := w.nextConn) hloop (fun _ => hconn)
    fun hdead => absurd (hnew.symm.trans hdead) (by decide)).1
  exact (reconnecting_keptByConn.quiet hestablish (.record _)).1

theorem Reconnecting.connectorEvent {n soError : Nat} {revents : Mask} {b : Bool} (h : Reconnecting w)
    (hevents : w.loop.eventHandling = true) :
    ((ConnectorSite.handleEvent n revents soError b).handle (connectorSite k) (setConnectorSite k)
      (newConnection k)).wp Reconnecting SameResets (fun _ u => Reconnecting u) w := by
  have hguard : ∀ {u : ClientLoop} {b : Bool}, Reconnecting u →
      Reconnecting (u.onConnector k (ConnectorSite.setEventHandling n b)) := by
    intro u b hu
    refine hu.inert ConnectorSite.setEventHandling_loop (fun hok => hok.setEventHandling) ?_ ?_
    all_goals
      unfold ConnectorSite.setEventHandling
      split
      · rfl
      · split <;> rfl
  have herror : ∀ u, Reconnecting u ∧ u.loop.eventHandling = true →
      Reconnecting (u.onConnector k ConnectorSite.handleError) ∧
        (u.onConnector k ConnectorSite.handleError).loop.eventHandling = true := by
    rintro u ⟨hu, hue⟩
    rw [onConnector_handleError]
    split
    · rename_i hs
      have hending := hu.removeAndResetChannel hue hs
      exact ⟨hending.retry, (congrArg EventLoop.eventHandling ConnectorSite.retry_loop).trans hending.events⟩
    · exact ⟨hu.inert rfl (fun hok => hok) rfl rfl, hue⟩
  refine ConnectorSite.wp_handleEvent (A := fun u => Reconnecting u ∧ u.loop.eventHandling = true)
    (B := fun _ => Ending k) (C := Reconnecting) (connectorSite_setConnectorSite k) (setConnectorSite_setConnectorSite k)
    ⟨hguard h, (congrArg EventLoop.eventHandling ConnectorSite.setEventHandling_loop).trans hevents⟩ herror
    (fun u hu => hu.1)
    (fun u _ hu => ?_)
    (fun u hu hs => hu.1.removeAndResetChannel hu.2 hs)
    (fun u fd hu => hu.retry)
    (fun u fd hu => hu.succeed.1)
    (fun u fd hu => wp_newConnection (hu.succeed.1.established hu.succeed.2.1 hu.succeed.2.2) fun v hv _ => hv)
    (fun u hu => hguard hu)
  refine hu.1.inert ConnectorSite.assertThat_loop (fun hok => hok.assertThat (by decide)) ?_ ?_
  all_goals
    unfold ConnectorSite.assertThat
    split <;> rfl

/-! ## The loop -/

theorem Reconnecting.poll {ready : List (Nat × Mask)} (h : Reconnecting w) (hidle : w.loop.eventHandling = false)
    (hfunctors : w.loop.queue.functors = []) (hmade : ∀ c ∈ w.polled ready, w.isMade c.1 = true) :
    Reconnecting (w.poll ready) := by
  -- All resets have run.
  have hnone : ∀ k, w.loop.resets k = [] := fun k => by
    rw [EventLoop.resets, hfunctors, List.nil_append, ← filterMap_reset?, h.running hidle]
    rfl
  refine ⟨⟨h.alive, fun i hi => ?_, fun _ => ?_, fun hfalse => by cases hfalse⟩, h.clients⟩
  case refine_2 => simp [ClientLoop.poll, hfunctors]
  obtain ⟨c, hc, hid⟩ := List.mem_map.mp hi
  have hlt := hmade c hc
  rw [hid, isMade, decide_eq_true_eq] at hlt
  exact ⟨hlt, fun _ => hnone _⟩

theorem Reconnecting.doPendingFunctors (h : Reconnecting w) (hevents : w.loop.eventHandling = true)
    (hwaiting : w.waiting = []) : Reconnecting w.doPendingFunctors := by
  have hresets : ∀ k, w.doPendingFunctors.loop.resets k = w.loop.resets k := fun k => by
    have hnone : w.loop.queue.functors.filterMap (Functor.reset? k) = [] := by
      rw [← filterMap_reset?, h.handling hevents]
      rfl
    simp [EventLoop.resets, ClientLoop.doPendingFunctors, LoopQueue.swapFunctors, hnone]
  refine ⟨⟨h.alive, fun i hi => ?_, fun htrue => ?_, fun _ => rfl⟩, fun k => ?_⟩
  · simp [toDispatch, ClientLoop.doPendingFunctors, hwaiting] at hi
  · cases htrue
  · rw [hresets]
    exact h.clients k

theorem Reconnecting.dispatch {r : Results} (h : Reconnecting w) (hevents : w.loop.eventHandling = true)
    (hclose : ∀ i revents waiting, w.waiting = (.connection i, revents) :: waiting →
      (revents.hangsUp ∨ revents.isReadable ∧ r.read.isEof = true → Site.Open (w.site i)) ∧
        ¬(revents.hangsUp ∧ revents.isReadable ∧ r.read.isEof = true)) :
    (ClientLoop.dispatch r).wp Reconnecting SameResets (fun _ u => Reconnecting u) w := by
  simp only [ClientLoop.dispatch, Code.wp_bind, Code.wp_get]
  split
  · exact h
  · rename_i c revents waiting hw
    simp only [Code.wp_bind, Code.wp_modify]
    have hd : w.toDispatch = c :: waiting.map (·.1) := by simp [toDispatch, hw]
    have hnext : Reconnecting
        { w with waiting := waiting, loop := { w.loop with currentActiveChannel := some c } } :=
      ⟨⟨h.alive, fun i hi => h.waiting i (hd ▸ List.mem_cons_of_mem _ hi), h.handling, h.running⟩, h.clients⟩
    cases c with
    | connection i =>
      obtain ⟨hopen, honce⟩ := hclose i revents waiting hw
      refine Code.wp_mono (fun _ u hu => hu.1) (reconnecting_keptByConn.handleEvent hnext (fun hc => ?_)
        fun hhup hread heof => absurd ⟨hhup, hread, heof⟩ honce)
      exact ⟨hopen hc, (h.waiting i (hd ▸ List.mem_cons_self)).2 (h.alive i (hopen hc))⟩
    | connector k n =>
      simp only [ClientLoop.handleEvent, Code.wp_bind, Code.wp_get]
      exact Code.wp_when (fun _ => hnext.connectorEvent hevents) (fun _ => hnext)

def pop (rest : List Functor) (w : ClientLoop) : ClientLoop :=
  { w with loop := { w.loop with queue := { w.loop.queue with functors := rest } } }

theorem resets_pop {g : Functor} {rest : List Functor} (hf : w.loop.queue.functors = g :: rest) (k : Nat) :
    w.loop.resets k = (g.reset? k).toList ++ (w.pop rest).loop.resets k := by
  rw [EventLoop.resets, hf, List.cons_append, List.filterMap_cons]
  cases g.reset? k <;> rfl

theorem Reconnecting.pop {g : Functor} {rest : List Functor} (h : Reconnecting w)
    (hf : w.loop.queue.functors = g :: rest) (hg : g.isReset = false) (hidle : w.loop.eventHandling = false) :
    Reconnecting (w.pop rest) := by
  have hresets : ∀ k, (w.pop rest).loop.resets k = w.loop.resets k := fun k => by
    have hnone : g.reset? k = none := by cases g <;> first | rfl | cases hg
    rw [resets_pop hf k, hnone]
    rfl
  refine ⟨⟨h.alive, fun i hi => ?_, fun hh => absurd (hidle.symm.trans hh) (by decide), h.running⟩, fun k => ?_⟩
  · rw [hresets]
    exact h.waiting i hi
  · rw [hresets]
    exact h.clients k

/-- A reset finds the channel for which it was queued. -/
theorem Reconnecting.resetChannel {n : Nat} {rest : List Functor} (h : Reconnecting w)
    (hf : w.loop.queue.functors = .resetChannel k n :: rest) (hidle : w.loop.eventHandling = false) :
    Reconnecting ((w.pop rest).onConnector k (ConnectorSite.resetChannel n)) := by
  have hk := h.clients k
  have hhead : w.loop.resets k = n :: (w.pop rest).loop.resets k := by
    rw [resets_pop hf k]
    simp [Functor.reset?]
  have hs : (w.clients k).connector.state ≠ .kConnecting := fun hs => by
    rw [hk.connector.connecting hs] at hhead
    cases hhead
  have hover := ConnectorOk.attemptOver (s := w.connectorSite k) hk.connector hs
  -- It is the only reset of its connector.
  have hlast : (w.pop rest).loop.resets k = [] := by
    cases hc : (w.clients k).connector.channel with
    | none => rw [(hk.connector.free hc).2] at hhead; cases hhead
    | some ch =>
      rw [(hk.connector.ended ch hc hs).1] at hhead
      exact (List.cons.inj hhead).2.symm
  rw [hhead, hlast] at hover
  have hothers : ∀ j, j ≠ k → (w.pop rest).loop.resets j = w.loop.resets j := fun j hj => by
    rw [resets_pop hf j]
    simp [Functor.reset?, Ne.symm hj]
  obtain ⟨hok, hid, hattempts⟩ := AttemptOver.resetChannel (s := (w.pop rest).connectorSite k) hover hs
  have hloop : ((w.pop rest).onConnector k (ConnectorSite.resetChannel n)).loop = (w.pop rest).loop :=
    ConnectorSite.resetChannel_loop
  refine ⟨⟨fun i hi => ?_, fun i hi => ?_, fun hh => ?_, fun _ => ?_⟩, fun j => ?_⟩
  · rw [onConnector_connection]
    exact h.alive i hi
  · obtain ⟨hlt, hresets⟩ := h.waiting i hi
    refine ⟨hlt, fun hc => ?_⟩
    rw [onConnector_connection, onConnector_owner] at hc
    rw [hloop, onConnector_owner]
    by_cases howner : w.owner i = k
    · rw [show (w.pop rest).owner i = k from howner]
      exact hlast
    · exact (hothers _ howner).trans (hresets hc)
  · rw [hloop] at hh
    exact absurd (hidle.symm.trans hh) (by decide)
  · rw [hloop]
    exact h.running hidle
  · rw [hloop, onConnector_clients]
    split
    · rename_i hj
      subst hj
      rw [hlast]
      exact ⟨hok, hid.trans hk.id, hattempts ▸ hk.busy⟩
    · rename_i hj
      rw [hothers j hj]
      exact h.clients j

theorem Reconnecting.setConnect (h : Reconnecting w) (k : Nat) :
    Reconnecting (w.onClient k fun c => { c with connect := true }) ∧
      SameResets w (w.onClient k fun c => { c with connect := true }) := by
  have hset : ∀ j,
      ((w.onClient k fun c => { c with connect := true }).clients j).connection = (w.clients j).connection ∧
        ((w.onClient k fun c => { c with connect := true }).clients j).connector = (w.clients j).connector := by
    intro j
    simp only [onClient]
    split
    · rename_i hj
      exact hj ▸ ⟨rfl, rfl⟩
    · exact ⟨rfl, rfl⟩
  have hconns := h.toConnectionsOk.of_same (w := w.onClient k fun c => { c with connect := true })
    (.of_quiet (.refl _)) rfl rfl rfl (fun j hj => (hset _).1.trans (h.alive j hj))
    fun j hj => (hset _).1.symm.trans hj
  refine ⟨⟨hconns, fun j => ?_⟩, .of_quiet (.refl _), rfl, rfl, fun j hs hc => ⟨hs, (hset _).1.trans hc⟩⟩
  · obtain ⟨hok, hid, hbusy⟩ := h.clients j
    exact ⟨(hset j).2 ▸ hok, (hset j).2 ▸ hid, by rw [(hset j).1, (hset j).2]; exact hbusy⟩

theorem Reconnecting.connect {a : Attempt} (h : Reconnecting w) (hnone : (w.clients k).connection = none)
    (hattempts : (w.clients k).connector.attempts = 0) (hresets : w.loop.resets k = []) :
    Reconnecting (w.connect k a) ∧ SameResets w (w.connect k a) := by
  obtain ⟨hstate, htimers⟩ := state_of_attempts hattempts
  obtain ⟨hset, hsame⟩ := h.setConnect k
  have hsite : (w.onClient k fun c => { c with connect := true }).connectorSite k = w.connectorSite k := by
    simp [connectorSite, onClient]
  have hloop : w.loop.Quiet ((w.connectorSite k).start a).loop := ConnectorSite.quiet_startInLoop rfl
  obtain ⟨hok, hid, hattempts'⟩ :=
    ConnectorOk.start (s := w.connectorSite k) (a := a) (hresets ▸ (h.clients k).connector) hstate htimers
  refine ⟨hset.onConnector ?_ ?_ ?_ ?_, hsame.trans (.onConnector ?_)⟩
  · rw [hsite]
    exact hloop
  · rw [hsite, show EventLoop.resets k (w.onClient k _).loop = [] from hresets]
    exact hok
  · rw [hsite, hid, ← hsite]
    rfl
  · rw [hsite]
    simpa [onClient, hnone] using hattempts'
  · rw [hsite]
    exact hloop

/-- The retry timer of a client is its only attempt. -/
theorem Reconnecting.retryTimer {a : Attempt} (h : Reconnecting w)
    (htimers : (w.clients k).connector.retryTimers ≠ []) (hresets : w.loop.resets k = []) :
    Reconnecting (w.onConnector k (ConnectorSite.retryTimer a)) := by
  have hk := h.clients k
  obtain ⟨d, timers, heq⟩ := List.exists_cons_of_ne_nil htimers
  have hbusy := hk.busy
  rw [Connector.attempts, heq, List.length_cons] at hbusy
  have hstate : (w.clients k).connector.state ≠ .kConnecting := fun hs => by
    rw [if_pos hs] at hbusy
    omega
  have hnone : (w.clients k).connection.isSome = false := Bool.eq_false_iff.mpr fun hsome => by
    rw [if_pos hsome] at hbusy
    omega
  have hlast : timers = [] := List.length_eq_zero_iff.mp (by omega)
  have hok := hresets ▸ hk.connector
  have hstart := ConnectorOk.startInLoop (a := a)
    (s := ⟨{ (w.clients k).connector with retryTimers := timers }, w.loop⟩)
    ⟨hok.free, hok.connecting, hok.ended, hok.failed, hok.log⟩ hstate hlast
  have hsite : (w.connectorSite k).retryTimer a =
      ConnectorSite.startInLoop a ⟨{ (w.clients k).connector with retryTimers := timers }, w.loop⟩ := by
    unfold ConnectorSite.retryTimer
    simp only [connectorSite, heq]
  refine h.onConnector (ConnectorSite.quiet_retryTimer (s := w.connectorSite k)) ?_ ?_ ?_
  · rw [hsite, hresets]
    exact hstart.1
  · rw [hsite]
    exact hstart.2.1
  · rw [hsite, hnone]
    simpa using hstart.2.2

end Steps

/-! ## Every run -/

/-- An open connection is closed only while no reset of its client is queued. -/
def ClosesSettled (w : ClientLoop) (i : Nat) : Prop := Site.Open (w.site i) → w.loop.resets (w.owner i) = []

/-- A dispatch that closes a connection finds it open, and closes it once. -/
def ClosesOpen (w : ClientLoop) (r : Results) : Option (ChannelId × Mask) → Prop
  | some (.connection i, revents) =>
    (revents.hangsUp ∨ revents.isReadable ∧ r.read.isEof = true → Site.Open (w.site i)) ∧
      ¬(revents.hangsUp ∧ revents.isReadable ∧ r.read.isEof = true)
  | _ => True

def FunctorSettled (w : ClientLoop) : Option Functor → Prop
  | some (.forceCloseInLoop i) => ClosesSettled w i
  | _ => True

/-- No attempt is started while a reset of the connector is queued. `connect` is for a client that has neither a
    connection nor an attempt. -/
def Settled : Reentrant.Cond ClientLoop Op Top where
  call
    | .forceClose i _, w => ClosesSettled w i
    | .connect k _, w =>
      (w.clients k).connection = none ∧ (w.clients k).connector.attempts = 0 ∧ w.loop.resets k = []
    | _, _ => True
  top
    | .dispatch r, w => ClosesOpen w r w.waiting.head?
    | .retryTimer k _, w => w.loop.resets k = []
    | .runFunctor _, w => FunctorSettled w w.loop.queue.functors.head?
    | _, _ => True

theorem reconnecting_keeps : system.Keeps Settled Reconnecting Reconnecting SameResets where
  refl := .refl
  trans := .trans
  inner h := h
  outer _ h _ := h
  api {op w} h hc := by
    cases op with
    | send i m r => exact reconnecting_keptByConn.modify h ((Site.Quiet.keptByOutput _).send (.refl _))
    | shutdown i => exact reconnecting_keptByConn.modify h .shutdown
    | forceClose i a => exact reconnecting_keptByConn.forceClose h fun hopen => ⟨hopen, hc hopen⟩
    | connect k a => exact h.connect hc.1 hc.2.1 hc.2.2
  top {e w} h hen hc := by
    cases e with
    | poll ready =>
      simp only [system, enabled, Bool.and_eq_true, Bool.not_eq_true', decide_eq_true_eq, List.isEmpty_iff,
        List.all_eq_true] at hen
      exact h.poll hen.1.1.1 hen.1.1.2 fun c hc => hen.2 c hc
    | dispatch r =>
      simp only [system, enabled, Bool.and_eq_true] at hen
      refine h.dispatch hen.1 fun i revents waiting hw => ?_
      rw [show Settled.top (.dispatch r) w = ClosesOpen w r w.waiting.head? from rfl, hw] at hc
      exact hc
    | retryTimer k a =>
      simp only [system, enabled, Bool.and_eq_true, Bool.not_eq_true', List.isEmpty_eq_false_iff] at hen
      exact h.retryTimer hen.2 hc
    | doPendingFunctors =>
      simp only [system, enabled, Bool.and_eq_true, List.isEmpty_iff] at hen
      exact h.doPendingFunctors hen.1 hen.2
    | runFunctor r =>
      simp only [system, enabled, Bool.not_eq_true'] at hen
      simp only [system, top, Code.wp_bind, Code.wp_get]
      split
      · exact h
      · rename_i f rest hf
        simp only [Code.wp_bind, Code.wp_modify]
        rw [show Settled.top (.runFunctor r) w = FunctorSettled w w.loop.queue.functors.head? from rfl, hf] at hc
        have hpop := fun hg => h.pop hf hg hen
        have hconn : ∀ {i}, f.isReset = false → (∀ j, f = .forceCloseInLoop j → j = i) →
            (onConn i r.attempt (Site.runFunctor f r.write)).wp Reconnecting SameResets
              (fun _ u => Reconnecting u) (w.pop rest) := by
          intro i hg htarget
          refine Code.wp_mono (fun _ u hu => hu.1)
            (reconnecting_keptByConn.runFunctor (hpop hg) fun j hj hopen => ?_)
          obtain rfl := htarget j hj
          subst hj
          have hnone := hc hopen
          rw [resets_pop hf] at hnone
          exact ⟨hopen, hnone⟩
        cases f with
        | resetChannel k n => exact h.resetChannel hf hen
        | _ => exact hconn rfl (by simp)

/-- Clients that have not been used, on a loop in which none of their functors is queued. -/
structure Unconnected (w : ClientLoop) : Prop where
  clients : ∀ k, ∃ retry connect, w.clients k = { connector := { id := k }, retry := retry, connect := connect }
  conns : ∀ i, ¬Site.Open (w.site i)
  waiting : w.waiting = []
  functors : w.loop.queue.functors = []
  pending : w.loop.queue.pendingFunctors = []

theorem Unconnected.reconnecting {w : ClientLoop} (h : Unconnected w) : Reconnecting w := by
  refine ⟨⟨fun i hi => absurd hi (h.conns i), fun i hi => ?_, fun _ => ?_, fun _ => ?_⟩, fun k => ?_⟩
  · simp [toDispatch, h.waiting] at hi
  · simp [h.functors]
  · simp [h.pending]
  · obtain ⟨retry, connect, heq⟩ := h.clients k
    have hresets : w.loop.resets k = [] := by simp [EventLoop.resets, h.functors, h.pending]
    rw [hresets, heq]
    refine ⟨⟨fun _ => ⟨by simp, rfl⟩, by simp, by simp, by simp, by simp⟩, rfl, ?_⟩
    simp [Connector.attempts]

/-- In every run in which no attempt is started while a reset of its connector is queued, `connecting` finds no
    channel, and a reset destroys the channel for which it was queued, which is not in the loop. -/
theorem reconnect_in_turn {w : ClientLoop} {es : List (Reentrant.Event Op Top)} {c : Config ClientLoop UserCallback}
    (hw : Unconnected w) (h : system.stepper.Run (fun c e => Settled.holds c e) ⟨w, []⟩ es c) (k : Nat) :
    .connectingNoChannel ∉ (c.state.clients k).connector.failed ∧
      .destroyedAdded ∉ (c.state.clients k).connector.failed ∧
      ∀ r ∈ (c.state.clients k).connector.resets, r.destroyed = some r.queuedFor :=
  have hk := ((reconnecting_keeps.run hw.reconnecting h).1.clients k).connector
  ⟨hk.failed.1, hk.failed.2, hk.log⟩

instance (w : ClientLoop) (i : Nat) : Decidable (ClosesSettled w i) := inferInstanceAs (Decidable (_ → _))

instance (w : ClientLoop) (r : Results) (c : Option (ChannelId × Mask)) : Decidable (ClosesOpen w r c) :=
  match c with
  | some (.connection _, _) => inferInstanceAs (Decidable ((_ → _) ∧ ¬_))
  | some (.connector _ _, _) | none => instDecidableTrue

instance (w : ClientLoop) (f : Option Functor) : Decidable (FunctorSettled w f) :=
  match f with
  | some (.forceCloseInLoop i) => inferInstanceAs (Decidable (ClosesSettled w i))
  | some (.sendInLoop _ _) | some (.shutdownInLoop _) | some (.startReadInLoop _) | some (.stopReadInLoop _)
  | some (.writeComplete _) | some (.highWaterMark _ _) | some (.resetChannel _ _) | none => instDecidableTrue

instance (op : Op) (w : ClientLoop) : Decidable (Settled.call op w) :=
  match op with
  | .forceClose i _ => inferInstanceAs (Decidable (ClosesSettled w i))
  | .connect _ _ => inferInstanceAs (Decidable (_ ∧ _ ∧ _))
  | .send _ _ _ | .shutdown _ => instDecidableTrue

instance (e : Top) (w : ClientLoop) : Decidable (Settled.top e w) :=
  match e with
  | .dispatch r => inferInstanceAs (Decidable (ClosesOpen w r w.waiting.head?))
  | .retryTimer k _ => inferInstanceAs (Decidable (w.loop.resets k = []))
  | .runFunctor _ => inferInstanceAs (Decidable (FunctorSettled w w.loop.queue.functors.head?))
  | .poll _ | .doPendingFunctors => instDecidableTrue

def retrying : ClientLoop := { clients := fun k => { connector := { id := k }, retry := true } }

theorem unconnected_retrying : Unconnected retrying where
  clients _ := ⟨true, true, rfl⟩
  conns _ h := by rcases h with hs | hs <;> cases hs
  waiting := rfl
  functors := rfl
  pending := rfl

/-- The user shuts the connection down in its first callback; the peer closes it in the next iteration. -/
theorem reconnect_in_turn_hangup :
    ∃ c, system.stepper.Run (fun c e => Settled.holds c e) ⟨retrying, []⟩
        [.call (.connect 0 ⟨10, EINPROGRESS⟩), .top (.poll [(10, POLLOUT)]), .top (.dispatch {}),
          .call (.shutdown 0), .ret, .top .doPendingFunctors, .top (.runFunctor {}), .top (.poll [(10, POLLHUP)]),
          .top (.dispatch { attempt := ⟨11, EINPROGRESS⟩ }), .ret] c ∧
      (c.state.clients 0).connector.made = 2 ∧ (c.state.clients 0).connector.resets = [⟨0, some 0⟩] ∧
      .connectingNoChannel ∉ (c.state.clients 0).connector.failed :=
  Stepper.Run.replay rfl fun run => ⟨rfl, rfl, (reconnect_in_turn unconnected_retrying run 0).1⟩

/-- The user closes the connection in its first callback: the next attempt begins with the channel of the first,
    and the reset that was queued for the first destroys the channel of the second. -/
theorem reconnect_too_early :
    ∃ c, system.stepper.Run (fun _ _ => True) ⟨retrying, []⟩
        [.call (.connect 0 ⟨10, EINPROGRESS⟩), .top (.poll [(10, POLLOUT)]), .top (.dispatch {}),
          .call (.forceClose 0 ⟨11, EINPROGRESS⟩), .ret, .ret, .top .doPendingFunctors, .top (.runFunctor {})] c ∧
      .connectingNoChannel ∈ (c.state.clients 0).connector.failed ∧
      .destroyedAdded ∈ (c.state.clients 0).connector.failed ∧
      (c.state.clients 0).connector.resets = [⟨0, some 1⟩] :=
  Stepper.Run.replay rfl fun _ => ⟨by decide, by decide, rfl⟩

end ClientLoop
end Muduo
