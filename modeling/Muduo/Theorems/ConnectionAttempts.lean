import Muduo.ConnectorLoop
import Muduo.Theorems.Reconnect

/-! # One attempt at a time

A connector has at most one socket under way: the one it has made last. What its functions do to the attempts is
said by `SameAttempt`, `AttemptResult` and `AttemptEnds`, and what an event does by `AttemptStep`; the invariants are
read off the steps. `startInLoop` finds `kDisconnected`, if `start` is called only then and while no retry timer waits.
The channel stays with its attempt, if none begins while a reset is queued, and the socket is then closed or passed on
before the next one is made. -/

namespace Muduo
open Lib

/-! ## Sockets -/

/-- Newest first, each socket is created, and then passed on or closed before the next one is created. Descriptors
    may be used again. -/
inductive Disposed : List SocketEvent → Prop
  | nil : Disposed []
  | closed {fd : Nat} {log : List SocketEvent} : Disposed log → Disposed (.closed fd :: .created fd :: log)
  | passed {fd : Nat} {log : List SocketEvent} : Disposed log → Disposed (.passed fd :: .created fd :: log)

/-- The last socket is under way, and all before it are passed on or closed. -/
def Underway (fd : Nat) (log : List SocketEvent) : Prop := ∃ rest, log = .created fd :: rest ∧ Disposed rest

/-- A connector has a socket under way exactly while it is connecting, and its channel is for that socket. -/
structure Ledger (c : Connector) : Prop where
  idle : c.state ≠ .kConnecting → Disposed c.sockets
  connecting : c.state = .kConnecting → ∃ fd, Underway fd c.sockets ∧ ∀ ch, c.channel = some ch → ch.fd = fd

/-! ## What the functions do to the attempts -/

/-- The attempts go on as they were; the channel may be gone. -/
structure SameAttempt (c d : Connector) : Prop where
  id : d.id = c.id := by rfl
  state : d.state = c.state := by rfl
  timers : d.retryTimers = c.retryTimers := by rfl
  delay : d.retryDelayMs = c.retryDelayMs := by rfl
  sockets : d.sockets = c.sockets := by rfl
  channel : ∀ ch, d.channel = some ch → ∃ ch', c.channel = some ch' ∧ ch.fd = ch'.fd
  failed : .startDisconnected ∈ d.failed → .startDisconnected ∈ c.failed

/-- What `startInLoop` may do: nothing, begin an attempt, or begin and end one. -/
inductive AttemptOutcome (c d : Connector) : Prop
  | none (state : d.state = c.state) (timers : d.retryTimers = c.retryTimers) (sockets : d.sockets = c.sockets)
  | connecting (fd : Nat) (state : d.state = .kConnecting) (timers : d.retryTimers = c.retryTimers)
      (sockets : d.sockets = .created fd :: c.sockets) (channel : ∃ ch, d.channel = some ch ∧ ch.fd = fd)
  | ended (fd : Nat) (state : d.state = .kDisconnected ∨ d.state = c.state)
      (timers : d.retryTimers.length ≤ c.retryTimers.length + 1)
      (sockets : d.sockets = .closed fd :: .created fd :: c.sockets)

/-- Its assert does not fail in `kDisconnected`. -/
structure AttemptResult (c d : Connector) : Prop where
  id : d.id = c.id
  failed : c.state = .kDisconnected → .startDisconnected ∈ d.failed → .startDisconnected ∈ c.failed
  outcome : AttemptOutcome c d

namespace SameAttempt
variable {s : ConnectorSite} {c d e : Connector} {n : Nat} {b : Bool} {x : ConnectorAssert}

theorem refl (c : Connector) : SameAttempt c c where
  channel ch hch := ⟨ch, hch, rfl⟩
  failed h := h

theorem trans (h : SameAttempt c d) (h' : SameAttempt d e) : SameAttempt c e where
  id := h'.id.trans h.id
  state := h'.state.trans h.state
  timers := h'.timers.trans h.timers
  delay := h'.delay.trans h.delay
  sockets := h'.sockets.trans h.sockets
  channel ch hch := by
    obtain ⟨ch', hd, hfd⟩ := h'.channel ch hch
    obtain ⟨ch'', hc, hfd'⟩ := h.channel ch' hd
    exact ⟨ch'', hc, hfd.trans hfd'⟩
  failed hfailed := h.failed (h'.failed hfailed)

theorem assertThat (hx : x ≠ .startDisconnected) : SameAttempt s.connector (s.assertThat x b).connector := by
  unfold ConnectorSite.assertThat
  split
  · exact refl _
  · exact ⟨rfl, rfl, rfl, rfl, rfl, fun ch hch => ⟨ch, hch, rfl⟩, by simp [hx.symm]⟩

theorem destroyChannel : SameAttempt s.connector s.destroyChannel.connector := by
  unfold ConnectorSite.destroyChannel
  split
  · exact refl _
  · rename_i ch _
    have h := (assertThat (s := s) (b := !ch.eventHandling) (x := .destroyedHandling) (by decide)).trans
      (assertThat (b := !ch.addedToLoop) (x := .destroyedAdded) (by decide))
    exact ⟨h.id, h.state, h.timers, h.delay, h.sockets, fun _ hch => by simp [ConnectorSite.setChannel] at hch, h.failed⟩

theorem onChannel {f : Channel → EventLoop → EventLoop × Channel} (hf : ∀ ch l, (f ch l).2.fd = ch.fd) :
    SameAttempt s.connector (s.onChannel f).connector := by
  unfold ConnectorSite.onChannel
  split
  · exact refl _
  · rename_i ch hch
    refine ⟨rfl, rfl, rfl, rfl, rfl, fun ch' hch' => ⟨ch, hch, ?_⟩, fun h => h⟩
    obtain rfl := Option.some.inj hch'
    exact hf ch s.loop

theorem disableAll : SameAttempt s.connector (s.onChannel Channel.disableAll).connector := onChannel fun _ _ => rfl

theorem remove : SameAttempt s.connector (s.onChannel Channel.remove).connector :=
  onChannel fun ch _ => by
    simp only [Channel.remove, EventLoop.removeChannel]
    split <;> rfl

theorem setEventHandling : SameAttempt s.connector (s.setEventHandling n b).connector := by
  unfold ConnectorSite.setEventHandling
  split
  · exact refl _
  · rename_i ch hch
    split
    · refine ⟨rfl, rfl, rfl, rfl, rfl, fun ch' hch' => ⟨ch, hch, ?_⟩, fun h => h⟩
      obtain rfl := Option.some.inj hch'
      rfl
    · exact refl _

theorem removeAndResetChannel : SameAttempt s.connector s.removeAndResetChannel.connector := by
  have h := (disableAll (s := s)).trans remove
  unfold ConnectorSite.removeAndResetChannel
  dsimp only
  split
  · exact h
  · exact h

theorem resetChannel : SameAttempt s.connector (s.resetChannel n).connector := by
  have h := destroyChannel (s :=
    { s with
      connector :=
        { s.connector with resets := ⟨n, s.connector.channel.map (·.id.attempt)⟩ :: s.connector.resets } })
  exact ⟨h.id, h.state, h.timers, h.delay, h.sockets, h.channel, h.failed⟩

theorem destroy : SameAttempt s.connector s.destroy.connector := (disableAll.trans remove).trans destroyChannel

theorem ledger (h : SameAttempt c d) (hc : Ledger c) : Ledger d where
  idle hs := by
    rw [h.sockets]
    exact hc.idle (h.state ▸ hs)
  connecting hs := by
    obtain ⟨fd, hfd, hch⟩ := hc.connecting (h.state.symm.trans hs)
    refine ⟨fd, h.sockets.symm ▸ hfd, fun ch hd => ?_⟩
    obtain ⟨ch', hc', heq⟩ := h.channel ch hd
    exact heq.trans (hch ch' hc')

end SameAttempt

theorem ConnectorSite.retry_connector (s : ConnectorSite) (fd : Nat) :
    (s.retry fd).connector.state = .kDisconnected ∧
      (s.retry fd).connector.sockets = .closed fd :: s.connector.sockets ∧
      (s.retry fd).connector.retryTimers.length ≤ s.connector.retryTimers.length + 1 ∧
      (s.retry fd).connector.failed = s.connector.failed ∧ (s.retry fd).connector.channel = s.connector.channel ∧
      (s.retry fd).connector.id = s.connector.id := by
  unfold ConnectorSite.retry
  dsimp only
  split
  · exact ⟨rfl, rfl, by simp [setState, socketEvent], rfl, rfl, rfl⟩
  · exact ⟨rfl, rfl, Nat.le_succ _, rfl, rfl, rfl⟩

theorem AttemptResult.connect (s : ConnectorSite) (a : Attempt) :
    AttemptResult s.connector (s.connect a).connector := by
  unfold ConnectorSite.connect
  dsimp only
  split
  · have h := (SameAttempt.assertThat (s := (s.socketEvent (.created a.sockfd)).setState .kConnecting)
      (b := s.connector.channel.isNone) (x := .connectingNoChannel) (by decide)).trans SameAttempt.destroyChannel
    exact ⟨h.id, fun _ => h.failed, .connecting a.sockfd h.state h.timers h.sockets ⟨_, rfl, rfl⟩⟩
  · split
    · obtain ⟨hstate, hsockets, htimers, hfailed, -, hid⟩ :=
        ConnectorSite.retry_connector (s.socketEvent (.created a.sockfd)) a.sockfd
      exact ⟨hid, fun _ h => hfailed ▸ h, .ended a.sockfd (.inl hstate) htimers hsockets⟩
    · exact ⟨rfl, fun _ h => h, .ended a.sockfd (.inr rfl) (Nat.le_succ _) rfl⟩

/-- The flag does not count among the attempts, nor does an assert that fails before them. -/
theorem AttemptResult.of_flags {c d : Connector} {connect : Bool} {failed : List ConnectorAssert}
    (h : AttemptResult { c with connect := connect, failed := failed } d)
    (hfailed : c.state = .kDisconnected → failed = c.failed) : AttemptResult c d := by
  refine ⟨h.id, fun hs => hfailed hs ▸ h.failed hs, ?_⟩
  cases h.outcome with
  | none hstate htimers hsockets => exact .none hstate htimers hsockets
  | connecting fd hstate htimers hsockets hchannel => exact .connecting fd hstate htimers hsockets hchannel
  | ended fd hstate htimers hsockets => exact .ended fd hstate htimers hsockets

theorem ConnectorSite.startInLoop_result (s : ConnectorSite) (a : Attempt) :
    AttemptResult s.connector (s.startInLoop a).connector := by
  have hresult : AttemptResult (s.assertThat .startDisconnected (s.connector.state = .kDisconnected)).connector
      (s.startInLoop a).connector := by
    unfold startInLoop
    dsimp only
    split
    · exact .connect _ a
    · exact ⟨rfl, fun _ h => h, .none rfl rfl rfl⟩
  unfold assertThat at hresult
  split at hresult
  · exact hresult
  · rename_i hs
    exact hresult.of_flags fun hidle => absurd (decide_eq_true hidle) hs

theorem ConnectorSite.start_result (s : ConnectorSite) (a : Attempt) :
    AttemptResult s.connector (s.start a).connector :=
  (startInLoop_result { s with connector := { s.connector with connect := true } } a).of_flags fun _ => rfl

/-- An attempt that begins while none is under way is the one under way. -/
theorem AttemptResult.ledger {c d : Connector} (h : AttemptResult c d) (hs : c.state ≠ .kConnecting) (hc : Ledger c) :
    Ledger d := by
  have hdisposed := hc.idle hs
  cases h.outcome with
  | none hstate _ hsockets =>
    exact ⟨fun _ => hsockets ▸ hdisposed, fun hd => absurd (hstate.symm.trans hd) hs⟩
  | connecting fd hstate _ hsockets hchannel =>
    refine ⟨fun hne => absurd hstate hne, fun _ => ⟨fd, ⟨_, hsockets, hdisposed⟩, fun ch hch => ?_⟩⟩
    obtain ⟨ch', hch', hfd⟩ := hchannel
    obtain rfl := Option.some.inj (hch'.symm.trans hch)
    exact hfd
  | ended fd hstate _ hsockets =>
    refine ⟨fun _ => ?_, fun hd => ?_⟩
    · rw [hsockets]
      exact .closed hdisposed
    · rcases hstate with hidle | hsame
      · rw [hidle] at hd
        cases hd
      · exact absurd (hsame.symm.trans hd) hs

/-- During an attempt that has begun there is no timer but those of before, and its channel. -/
theorem AttemptResult.of_connecting {c d : Connector} (h : AttemptResult c d) (hs : c.state ≠ .kConnecting)
    (hd : d.state = .kConnecting) : d.retryTimers = c.retryTimers ∧ d.channel.isSome := by
  cases h.outcome with
  | none hstate => exact absurd (hstate.symm.trans hd) hs
  | connecting fd _ htimers _ hchannel =>
    obtain ⟨ch, hch, -⟩ := hchannel
    exact ⟨htimers, by rw [hch]; rfl⟩
  | ended fd hstate =>
    rcases hstate with hidle | hsame
    · rw [hidle] at hd
      cases hd
    · exact absurd (hsame.symm.trans hd) hs

/-- Where no timer waits, one may be set. -/
theorem AttemptResult.length_le {c d : Connector} (h : AttemptResult c d) (ht : c.retryTimers = []) :
    d.retryTimers.length ≤ 1 := by
  cases h.outcome with
  | none _ htimers | connecting _ _ htimers => simp [htimers, ht]
  | ended _ _ htimers => simpa [ht] using htimers

theorem ConnectorSite.retryTimer_eq {s : ConnectorSite} {a : Attempt} (h : s.connector.retryTimers ≠ []) :
    s.retryTimer a = s.popTimer.startInLoop a := by
  obtain ⟨d, timers, ht⟩ := List.exists_cons_of_ne_nil h
  simp [retryTimer, popTimer, ht]

/-- The attempt with socket `fd` ends: the socket is closed or passed on, and a retry timer may be set. -/
structure AttemptEnds (fd : Nat) (c d : Connector) : Prop where
  state : d.state ≠ .kConnecting
  sockets : d.sockets = .closed fd :: c.sockets ∨ d.sockets = .passed fd :: c.sockets
  timers : d.retryTimers.length ≤ c.retryTimers.length + 1
  connected : d.state ≠ .kDisconnected → d.retryTimers = c.retryTimers
  failed : .startDisconnected ∈ d.failed → .startDisconnected ∈ c.failed

namespace AttemptEnds
variable {s : ConnectorSite} {c d : Connector} {fd : Nat}

theorem retry : AttemptEnds fd s.connector (s.removeAndResetChannel.retry fd).connector := by
  have h := SameAttempt.removeAndResetChannel (s := s)
  obtain ⟨hstate, hsockets, htimers, hfailed, -⟩ := ConnectorSite.retry_connector s.removeAndResetChannel fd
  refine ⟨by simp [hstate], Or.inl ?_, ?_, fun hne => absurd hstate hne, fun hf => h.failed (hfailed ▸ hf)⟩
  · rw [hsockets, h.sockets]
  · rw [← h.timers]
    exact htimers

theorem setConnected {e : Nat → SocketEvent} (he : e = .closed ∨ e = .passed) :
    AttemptEnds fd s.connector ((s.removeAndResetChannel.setState .kConnected).socketEvent (e fd)).connector := by
  have h := SameAttempt.removeAndResetChannel (s := s)
  refine ⟨by simp [ConnectorSite.socketEvent, ConnectorSite.setState], ?_, ?_, fun _ => h.timers, h.failed⟩
  · rcases he with rfl | rfl
    · exact Or.inl (congrArg _ h.sockets)
    · exact Or.inr (congrArg _ h.sockets)
  · exact h.timers ▸ Nat.le_succ _

theorem stopInLoop (hs : s.connector.state = .kConnecting) :
    AttemptEnds s.sockfd s.connector s.stopInLoop.connector := by
  have h := SameAttempt.removeAndResetChannel (s := s.setState .kDisconnected)
  simp only [ConnectorSite.stopInLoop, hs, if_true]
  refine ⟨?_, Or.inl (congrArg _ h.sockets), h.timers ▸ Nat.le_succ _, fun _ => h.timers, h.failed⟩
  have hstate : (s.setState .kDisconnected).removeAndResetChannel.connector.state = .kDisconnected := h.state
  simp [ConnectorSite.socketEvent, hstate]

theorem ledger (h : AttemptEnds fd c d) (hfd : Underway fd c.sockets) : Ledger d where
  idle _ := by
    obtain ⟨rest, hrest, hdisposed⟩ := hfd
    rcases h.sockets with hs | hs
    · rw [hs, hrest]
      exact .closed hdisposed
    · rw [hs, hrest]
      exact .passed hdisposed
  connecting hc := absurd hc h.state

end AttemptEnds

theorem Ledger.sockfd {s : ConnectorSite} (h : Ledger s.connector) (hs : s.connector.state = .kConnecting)
    (hch : s.connector.channel.isSome) : Underway s.sockfd s.connector.sockets := by
  obtain ⟨ch, hch⟩ := Option.isSome_iff_exists.1 hch
  obtain ⟨fd, hfd, heq⟩ := h.connecting hs
  have hsockfd : s.sockfd = fd := by simp [ConnectorSite.sockfd, hch, heq ch hch]
  exact hsockfd ▸ hfd

/-! ## The resets of a connector -/

namespace ConnectorSite
variable {s t : ConnectorSite} {a : Attempt} {n fd : Nat} {b : Bool} {x : ConnectorAssert}

theorem queuedResets_of (hloop : t.loop = s.loop) (hid : t.connector.id = s.connector.id) :
    t.queuedResets = s.queuedResets := by
  rw [queuedResets, queuedResets, hloop, hid]

theorem queuedResets_setEventHandling : (s.setEventHandling n b).queuedResets = s.queuedResets :=
  queuedResets_of setEventHandling_loop SameAttempt.setEventHandling.id

theorem queuedResets_assertThat : (s.assertThat x b).queuedResets = s.queuedResets := by
  refine queuedResets_of assertThat_loop ?_
  unfold assertThat
  split <;> rfl

theorem queuedResets_retry : (s.retry fd).queuedResets = s.queuedResets :=
  queuedResets_of retry_loop (retry_connector s fd).2.2.2.2.2

theorem queuedResets_startInLoop : (s.startInLoop a).queuedResets = s.queuedResets := by
  rw [queuedResets, queuedResets, (s.startInLoop_result a).id]
  exact (EventLoop.SameResets.of_quiet (quiet_startInLoop rfl)).resets s.connector.id

/-- The reset of the removed channel is queued. -/
theorem queuedResets_removeAndResetChannel (h : s.connector.channel.isSome) :
    s.removeAndResetChannel.queuedResets ≠ [] := by
  obtain ⟨ch, hch⟩ := Option.isSome_iff_exists.1 h
  rw [removeAndResetChannel_eq hch]
  simp [queuedResets, EventLoop.resets, EventLoop.queueInLoop, Functor.reset?]

/-- The loop after the first functor of its batch. -/
def popFunctor (rest : List Functor) (s : ConnectorSite) : ConnectorSite :=
  { s with loop := { s.loop with queue := { s.loop.queue with functors := rest } } }

theorem queuedResets_cons {f : Functor} {rest : List Functor} (h : s.loop.queue.functors = f :: rest) :
    s.queuedResets = (f.reset? s.connector.id).toList ++ (s.popFunctor rest).queuedResets := by
  simp only [queuedResets, EventLoop.resets, popFunctor, h, List.cons_append, List.filterMap_cons]
  split <;> simp [*]

end ConnectorSite

namespace ConnectorLoop
variable {w : ConnectorLoop}

/-! ## The dispatch of the channel -/

theorem isSome_setEventHandling {n : Nat} {b : Bool} (h : w.site.connector.channel.isSome) :
    (w.onSite (ConnectorSite.setEventHandling n b)).site.connector.channel.isSome := by
  obtain ⟨ch, hch⟩ := Option.isSome_iff_exists.1 h
  simp only [onSite, setSite, ConnectorSite.setEventHandling, hch]
  split
  · rfl
  · exact h

theorem isSome_handleError (h : w.site.connector.channel.isSome) :
    (w.onSite ConnectorSite.handleError).site.connector.channel.isSome := by
  obtain ⟨ch, hch⟩ := Option.isSome_iff_exists.1 h
  simp only [onSite, setSite, ConnectorSite.handleError]
  split
  · rw [(ConnectorSite.retry_connector _ _).2.2.2.2.1, ConnectorSite.removeAndResetChannel_eq hch]
    rfl
  · exact h

/-- A property that is kept by the end of an attempt, however it ends, is kept by a dispatch. -/
theorem wp_handleEvent {P : ConnectorLoop → Prop} {revents : Mask} {soError : Nat} {isSelfConnect : Bool}
    (hhandling : ∀ {u : ConnectorLoop} (n : Nat) (b : Bool), P u → P (u.onSite (ConnectorSite.setEventHandling n b)))
    (hidle : ∀ {u : ConnectorLoop} (b : Bool), P u → P (u.onSite (ConnectorSite.assertThat .writeDisconnected b)))
    (hretry : ∀ {u : ConnectorLoop}, P u → u.site.connector.channel.isSome → u.site.connector.state = .kConnecting →
      P (u.onSite fun s => s.removeAndResetChannel.retry s.sockfd))
    (hconnected : ∀ {u : ConnectorLoop} {e : Nat → SocketEvent}, e = .closed ∨ e = .passed → P u →
      u.site.connector.channel.isSome → u.site.connector.state = .kConnecting →
      P (u.onSite fun s => (s.removeAndResetChannel.setState .kConnected).socketEvent (e s.sockfd)))
    (hdestroy : ∀ {u : ConnectorLoop}, P u → P u.destroyUnreferenced) (h : P w) :
    (handleEvent revents soError isSelfConnect).wp P (fun _ _ => True) (fun _ u => P u) w := by
  simp only [handleEvent, Code.wp_bind, Code.wp_get]
  split
  · exact h
  · rename_i ch hch
    have hsome : w.site.connector.channel.isSome := by rw [hch]; rfl
    have hget : ∀ s u, site (setSite s u) = s := fun _ _ => rfl
    have hset : ∀ s t u, setSite s (setSite t u) = setSite s u := fun _ _ _ => rfl
    simp only [Code.wp_bind, Code.wp_modify]
    -- The channel is there up to the write callback, which is the last of them.
    refine ConnectorSite.wp_handleEvent (A := fun u => P u ∧ u.site.connector.channel.isSome) (C := P)
      (B := fun fd v => ∃ u : ConnectorLoop, P u ∧ u.site.connector.channel.isSome ∧
        u.site.connector.state = .kConnecting ∧ fd = u.site.sockfd ∧ v = u.onSite ConnectorSite.removeAndResetChannel)
      hget hset ⟨hhandling _ _ h, isSome_setEventHandling hsome⟩
      (fun u hu => ⟨?_, isSome_handleError hu.2⟩) (fun u hu => hu.1) (fun u b hu => hidle b hu.1)
      (fun u hu hs => ⟨u, hu.1, hu.2, hs, rfl, rfl⟩) ?_ ?_ ?_ (fun u hu => hdestroy (hhandling _ _ hu))
    · by_cases hs : u.site.connector.state = .kConnecting
      · have hretried := hretry hu.1 hu.2 hs
        simpa [onSite, ConnectorSite.handleError, hs] using hretried
      · have heq : u.site.handleError = u.site := if_neg hs
        rw [heq]
        exact hu.1
    · rintro _ _ ⟨u, hu, hch, hs, rfl, rfl⟩
      exact hretry hu hch hs
    · rintro _ _ ⟨u, hu, hch, hs, rfl, rfl⟩
      exact hconnected (.inl rfl) hu hch hs
    · rintro _ _ ⟨u, hu, hch, hs, rfl, rfl⟩
      exact ⟨hconnected (.inr rfl) hu hch hs, fun _ ht _ => ht⟩

/-! ## What an event does to the attempts -/

/-- The references to the connector are left alone, and no null `channel_` is followed. -/
structure SameOwner (w v : ConnectorLoop) : Prop where
  released : v.released = w.released := by rfl
  destroyed : v.destroyed = w.destroyed := by rfl
  nullChannel : v.nullChannel = w.nullChannel := by rfl

/-- What a part of an event does to the attempts. `Begins` is known where an attempt begins, and `Drops` where the owner
    drops the connector. -/
inductive AttemptStep (Begins Drops : ConnectorLoop → Prop) (w v : ConnectorLoop) : Prop
  | same (attempt : SameAttempt w.site.connector v.site.connector)
      (channel : w.site.connector.channel.isSome → v.site.connector.channel.isSome)
      (resets : v.site.queuedResets = w.site.queuedResets) (owner : SameOwner w v)
  | fired (eq : v = w.onSite ConnectorSite.popTimer)
  | begins (may : Begins w) (attempt : AttemptResult w.site.connector v.site.connector)
      (resets : v.site.queuedResets = w.site.queuedResets) (owner : SameOwner w v)
  | ends (connecting : w.site.connector.state = .kConnecting)
      (there : w.site.connector.channel.isSome ∨ w.destroyed = false)
      (attempt : AttemptEnds w.site.sockfd w.site.connector v.site.connector)
      (owner : w.site.connector.channel.isSome → v.site.queuedResets ≠ [] ∧ SameOwner w v)
  | reset (u : ConnectorLoop) (queued : w.site.queuedResets ≠ [])
      (attempt : SameAttempt w.site.connector u.site.connector) (owner : SameOwner w u) (eq : v = u.destroyUnreferenced)
  | dropped (may : Drops w) (eq : v = { w with released := true }.destroyUnreferenced)
  | unreferenced (eq : v = w.destroyUnreferenced)

section Steps
variable {v : ConnectorLoop} {B D P : ConnectorLoop → Prop}

theorem AttemptStep.retry (hs : w.site.connector.state = .kConnecting) (hch : w.site.connector.channel.isSome) :
    AttemptStep B D w (w.onSite fun s => s.removeAndResetChannel.retry s.sockfd) := by
  refine .ends hs (.inl hch) .retry fun _ => ⟨?_, {}⟩
  have hresets : (w.site.removeAndResetChannel.retry w.site.sockfd).queuedResets ≠ [] := by
    rw [ConnectorSite.queuedResets_retry]
    exact ConnectorSite.queuedResets_removeAndResetChannel hch
  exact hresets

theorem AttemptStep.stopInLoop (hstep : ∀ {v}, AttemptStep B D w v → P v) : P w.stopInLoop := by
  simp only [ConnectorLoop.stopInLoop, locked]
  split
  · exact hstep (.same (.refl _) id rfl {})
  · rename_i hdes
    by_cases hs : w.site.connector.state = .kConnecting
    · refine hstep (.ends hs (.inr (by simpa using hdes)) (.stopInLoop hs) fun hch => ⟨?_, { nullChannel := ?_ }⟩)
      · simp only [onSite, setSite, ConnectorSite.stopInLoop, hs, if_true]
        exact ConnectorSite.queuedResets_removeAndResetChannel (s := w.site.setState .kDisconnected) hch
      · simp [Option.isNone_eq_false_iff.mpr hch]
    · have heq : w.site.stopInLoop = w.site := if_neg hs
      refine hstep (.same ?_ (fun hch => ?_) ?_ { nullChannel := by simp [hs] })
      all_goals simp only [onSite, setSite, heq]
      · exact .refl _
      · exact hch

theorem AttemptStep.runFunctor (h : P w) (hstep : ∀ {v}, AttemptStep B D w v → P v) : P w.runFunctor := by
  unfold ConnectorLoop.runFunctor
  split
  · exact h
  · rename_i f rest hf
    have hqueue := ConnectorSite.queuedResets_cons hf
    dsimp only
    split
    · rename_i hnone
      have hr : (w.site.popFunctor rest).queuedResets = w.site.queuedResets := by
        rw [hqueue, show f.reset? w.site.connector.id = none from hnone]
        rfl
      exact hstep (.same (.refl _) id hr {})
    · rename_i n hsome
      have hsame : SameAttempt w.site.connector _ := SameAttempt.resetChannel (s := w.site.popFunctor rest) (n := n)
      refine hstep (.reset ((w.onSite (ConnectorSite.popFunctor rest)).onSite (ConnectorSite.resetChannel n)) ?_ hsame {} rfl)
      rw [hqueue, show f.reset? w.site.connector.id = some n from hsome]
      exact List.cons_ne_nil _ _

/-- A property is an invariant if the steps of the attempts keep it. -/
theorem keeps_of_attemptStep {cond : Reentrant.Cond ConnectorLoop Op Top}
    (hstart : ∀ {a w}, P w → cond.call (.start a) w → w.released = false → B w)
    (hretry : ∀ {a w}, P w → cond.top (.retryTimer a) w → w.site.connector.retryTimers ≠ [] → w.destroyed = false →
      B (w.onSite ConnectorSite.popTimer))
    (hrelease : ∀ {w}, cond.call .release w → D w)
    (hstep : ∀ {w v}, P w → AttemptStep B D w v → P v) : system.Keeps cond P P (fun _ _ => True) where
  refl _ := trivial
  trans _ _ := trivial
  inner h := h
  outer _ h _ := h
  api {op w} h hc := by
    refine ⟨?_, trivial⟩
    cases op with
    | start a =>
      simp only [perform, start, owned]
      split
      · exact h
      · rename_i hrel
        refine hstep h (.begins (hstart h hc (by simpa using hrel)) (w.site.start_result a) ?_ {})
        exact ConnectorSite.queuedResets_startInLoop
    | stop =>
      simp only [perform, stop, owned]
      split
      · exact h
      · exact hstep h (.same ⟨rfl, rfl, rfl, rfl, rfl, fun ch hch => ⟨ch, hch, rfl⟩, fun hf => hf⟩ id rfl {})
    | release =>
      simp only [perform, release, owned]
      split
      · exact h
      · exact hstep h (.dropped (hrelease hc) rfl)
  top {e w} h hen hc := by
    cases e with
    | handleEvent revents soError isSelfConnect =>
      refine wp_handleEvent ?_ ?_ (fun hu hch hs => hstep hu (.retry hs hch)) ?_ (fun hu => hstep hu (.unreferenced rfl)) h
      · exact fun n b hu => hstep hu
          (.same .setEventHandling isSome_setEventHandling ConnectorSite.queuedResets_setEventHandling {})
      · intro u b hu
        refine hstep hu (.same (.assertThat (by decide)) (fun hch => ?_) ConnectorSite.queuedResets_assertThat {})
        simp only [onSite, setSite, ConnectorSite.assertThat]
        split <;> exact hch
      · exact fun he hu hch hs => hstep hu (.ends hs (.inl hch) (.setConnected he) fun _ =>
          ⟨ConnectorSite.queuedResets_removeAndResetChannel hch, {}⟩)
    | retryTimer a =>
      simp only [system, enabled, Bool.not_eq_true', List.isEmpty_eq_false_iff] at hen
      have hpop : P (w.onSite ConnectorSite.popTimer) := hstep h (.fired rfl)
      change P (w.retryTimer a)
      unfold ConnectorLoop.retryTimer
      split
      · exact hpop
      · rename_i hdes
        have heq : w.site.retryTimer a = w.site.popTimer.startInLoop a := ConnectorSite.retryTimer_eq hen
        refine hstep hpop (.begins (hretry h hc hen (by simpa using hdes)) ?_ ?_ {})
        all_goals simp only [onSite, setSite, heq]
        · exact ConnectorSite.startInLoop_result _ a
        · exact ConnectorSite.queuedResets_startInLoop
    | stopInLoop => exact AttemptStep.stopInLoop (hstep h)
    | doPendingFunctors =>
      simp only [system, enabled, List.isEmpty_iff] at hen
      refine hstep h (.same (.refl _) id ?_ {})
      simp [ConnectorLoop.doPendingFunctors, onSite, setSite, ConnectorSite.queuedResets, EventLoop.resets, LoopQueue.swapFunctors, hen]
    | runFunctor => exact AttemptStep.runFunctor h (hstep h)

/-! ## `startInLoop` finds `kDisconnected` -/

/-- A retry timer waits only while no attempt is under way and none has succeeded. -/
structure OneAttempt (w : ConnectorLoop) : Prop where
  failed : .startDisconnected ∉ w.site.connector.failed
  timers : w.site.connector.retryTimers.length ≤ 1
  busy : w.site.connector.state ≠ .kDisconnected → w.site.connector.retryTimers = []

theorem OneAttempt.of_same (h : OneAttempt w) (hs : SameAttempt w.site.connector v.site.connector) : OneAttempt v where
  failed hf := h.failed (hs.failed hf)
  timers := by
    rw [hs.timers]
    exact h.timers
  busy hb := by
    rw [hs.timers]
    exact h.busy (hs.state ▸ hb)

/-- An attempt begins in `kDisconnected` with no timer left. -/
theorem OneAttempt.begins (h : OneAttempt w) (hs : w.site.connector.state = .kDisconnected)
    (ht : w.site.connector.retryTimers = []) (hv : AttemptResult w.site.connector v.site.connector) :
    OneAttempt v where
  failed hf := h.failed (hv.failed hs hf)
  timers := hv.length_le ht
  busy hb := by
    cases hv.outcome with
    | none _ htimers | connecting _ _ htimers => exact htimers.trans ht
    | ended _ hstate =>
      rcases hstate with hd | hd
      · exact absurd hd hb
      · exact absurd (hd.trans hs) hb

theorem sameAttempt_destroyUnreferenced (w : ConnectorLoop) :
    SameAttempt w.site.connector w.destroyUnreferenced.site.connector := by
  unfold destroyUnreferenced
  split
  · exact .destroy
  · exact .refl _

theorem OneAttempt.step (h : OneAttempt w) (hstep : AttemptStep B D w v)
    (hbegins : B w → w.site.connector.state = .kDisconnected ∧ w.site.connector.retryTimers = []) :
    OneAttempt v := by
  cases hstep with
  | same hsame => exact h.of_same hsame
  | fired heq =>
    subst heq
    have htail : w.site.popTimer.connector.retryTimers.length ≤ 1 :=
      Nat.le_trans (by simp [ConnectorSite.popTimer]) h.timers
    exact ⟨h.failed, htail, fun hb => congrArg List.tail (h.busy hb)⟩
  | begins may hresult =>
    obtain ⟨hs, ht⟩ := hbegins may
    exact h.begins hs ht hresult
  | ends hs _ hends =>
    have ht : w.site.connector.retryTimers = [] := h.busy (by simp [hs])
    exact ⟨fun hf => h.failed (hends.failed hf), by simpa [ht] using hends.timers,
      fun hb => (hends.connected hb).trans ht⟩
  | reset u _ hsame _ heq => exact heq ▸ h.of_same (hsame.trans u.sameAttempt_destroyUnreferenced)
  | dropped _ heq => exact heq ▸ h.of_same (sameAttempt_destroyUnreferenced { w with released := true })
  | unreferenced heq => exact heq ▸ h.of_same w.sameAttempt_destroyUnreferenced

/-- The state in which a timer of the connector fires. -/
theorem OneAttempt.popTimer (h : OneAttempt w) (hne : w.site.connector.retryTimers ≠ []) :
    w.site.connector.state = .kDisconnected ∧ w.site.popTimer.connector.retryTimers = [] := by
  refine ⟨Classical.byContradiction fun hb => hne (h.busy hb), List.length_eq_zero_iff.1 ?_⟩
  have hlen := h.timers
  simp only [ConnectorSite.popTimer, List.length_tail]
  omega

/-- `start` is called in `kDisconnected`, and while no retry timer waits. -/
def StartsIdle : Reentrant.Cond ConnectorLoop Op Top where
  call
    | .start _, w => w.site.connector.state = .kDisconnected ∧ w.site.connector.retryTimers = []
    | _, _ => True
  top _ _ := True

theorem keeps_oneAttempt : system.Keeps StartsIdle OneAttempt OneAttempt (fun _ _ => True) :=
  keeps_of_attemptStep (D := fun _ => True)
    (B := fun w => w.site.connector.state = .kDisconnected ∧ w.site.connector.retryTimers = [])
    (fun _ hc _ => hc) (fun h _ hne _ => h.popTimer hne) (fun _ => trivial) (fun h hstep => h.step hstep id)

/-- A connector that has not been started, in a loop in which none of its functors is queued. -/
structure Unstarted (w : ConnectorLoop) : Prop where
  state : w.site.connector.state = .kDisconnected
  timers : w.site.connector.retryTimers = []
  sockets : w.site.connector.sockets = []
  failed : w.site.connector.failed = []
  resets : w.site.queuedResets = []

theorem Unstarted.oneAttempt (h : Unstarted w) : OneAttempt w where
  failed := by simp [h.failed]
  timers := by simp [h.timers]
  busy _ := h.timers

/-! ## One socket at most is under way -/

/-- `start` is called in `kDisconnected` while no retry timer waits, and no attempt begins while a reset is queued. -/
def StartsClear : Reentrant.Cond ConnectorLoop Op Top where
  call
    | .start _, w => w.site.connector.state = .kDisconnected ∧ w.site.connector.retryTimers = [] ∧ w.site.queuedResets = []
    | _, _ => True
  top
    | .retryTimer _, w => w.site.queuedResets = []
    | _, _ => True

/-- During an attempt there is the channel, and no reset is queued that takes it away. The destructor may. -/
structure Attached (w : ConnectorLoop) : Prop where
  ledger : Ledger w.site.connector
  connecting : w.site.connector.state = .kConnecting →
    w.destroyed = true ∨ w.site.queuedResets = [] ∧ w.site.connector.channel.isSome

theorem Unstarted.attached (h : Unstarted w) : Attached w where
  ledger := by
    refine ⟨fun _ => ?_, fun hs => ?_⟩
    · rw [h.sockets]
      exact .nil
    · simp [h.state] at hs
  connecting hs := by simp [h.state] at hs

theorem Attached.destroyUnreferenced (h : Attached w) : Attached w.destroyUnreferenced := by
  refine ⟨w.sameAttempt_destroyUnreferenced.ledger h.ledger, fun hc => ?_⟩
  unfold ConnectorLoop.destroyUnreferenced at *
  split at hc
  · rename_i hcond
    rw [if_pos hcond]
    exact .inl rfl
  · rename_i hcond
    rw [if_neg hcond]
    exact h.connecting hc

/-- Where an attempt ends, its channel is there. -/
theorem Attached.isSome (h : Attached w) (hs : w.site.connector.state = .kConnecting)
    (hthere : w.site.connector.channel.isSome ∨ w.destroyed = false) : w.site.connector.channel.isSome := by
  rcases hthere with hsome | hdes
  · exact hsome
  · rcases h.connecting hs with hd | ⟨-, hsome⟩
    · rw [hdes] at hd
      cases hd
    · exact hsome

theorem Attached.step (h : Attached w) (hstep : AttemptStep B D w v)
    (hbegins : B w → w.site.connector.state ≠ .kConnecting ∧ w.site.queuedResets = []) : Attached v := by
  cases hstep with
  | same hsame hchannel hresets howner =>
    refine ⟨hsame.ledger h.ledger, fun hc => ?_⟩
    rcases h.connecting (hsame.state.symm.trans hc) with hd | ⟨hr, hch⟩
    · exact .inl (howner.destroyed.trans hd)
    · exact .inr ⟨hresets.trans hr, hchannel hch⟩
  | fired heq =>
    subst heq
    exact ⟨⟨h.ledger.idle, h.ledger.connecting⟩, h.connecting⟩
  | begins may hresult hresets =>
    obtain ⟨hs, hr⟩ := hbegins may
    exact ⟨hresult.ledger hs h.ledger, fun hc => .inr ⟨hresets.trans hr, (hresult.of_connecting hs hc).2⟩⟩
  | ends hs hthere hends =>
    exact ⟨hends.ledger (h.ledger.sockfd hs (h.isSome hs hthere)), fun hc => absurd hc hends.state⟩
  | reset u hqueued hsame howner heq =>
    refine heq ▸ Attached.destroyUnreferenced ⟨hsame.ledger h.ledger, fun hc => ?_⟩
    rcases h.connecting (hsame.state.symm.trans hc) with hd | ⟨hr, -⟩
    · exact .inl (howner.destroyed.trans hd)
    · exact absurd hr hqueued
  | dropped _ heq => exact heq ▸ Attached.destroyUnreferenced ⟨h.ledger, h.connecting⟩
  | unreferenced heq => exact heq ▸ h.destroyUnreferenced

theorem nullChannel_destroyUnreferenced (w : ConnectorLoop) : w.destroyUnreferenced.nullChannel = w.nullChannel := by
  unfold destroyUnreferenced
  split <;> rfl

/-- `stopInLoop` finds the channel of the attempt. -/
theorem Attached.nullChannel (h : Attached w) (hstep : AttemptStep B D w v) :
    v.nullChannel = w.nullChannel := by
  cases hstep with
  | same _ _ _ howner => exact howner.nullChannel
  | fired heq => exact heq ▸ rfl
  | begins _ _ _ howner => exact howner.nullChannel
  | ends hs hthere _ howner => exact (howner (h.isSome hs hthere)).2.nullChannel
  | reset u _ _ howner heq => exact heq ▸ u.nullChannel_destroyUnreferenced.trans howner.nullChannel
  | dropped _ heq => exact heq ▸ nullChannel_destroyUnreferenced _
  | unreferenced heq => exact heq ▸ w.nullChannel_destroyUnreferenced

end Steps

/-- What `StartsClear` keeps. -/
structure Clear (w : ConnectorLoop) : Prop where
  one : OneAttempt w
  attached : Attached w
  channel : w.nullChannel = false

theorem keeps_clear : system.Keeps StartsClear Clear Clear (fun _ _ => True) := by
  refine keeps_of_attemptStep (D := fun _ => True)
    (B := fun w => (w.site.connector.state = .kDisconnected ∧ w.site.connector.retryTimers = []) ∧
      w.site.queuedResets = []) (fun _ hc _ => ⟨⟨hc.1, hc.2.1⟩, hc.2.2⟩) (fun h hc hne _ => ⟨h.one.popTimer hne, hc⟩)
    (fun _ => trivial) fun {w v} h hstep => ?_
  refine ⟨h.one.step hstep And.left, h.attached.step hstep fun hb => ⟨?_, hb.2⟩, ?_⟩
  · simp [hb.1.1]
  · exact (h.attached.nullChannel hstep).trans h.channel

/-- In every run in which `start` is called only in `kDisconnected` and while no retry timer waits, and in which no
    attempt begins while a reset is queued, `startInLoop` finds `kDisconnected`, no retry timer waits during an attempt
    or after it has succeeded, `stopInLoop` does not follow a null `channel_`, and every socket is passed on or closed
    before the next one is made, the last one at the end of its attempt. -/
theorem one_attempt {es : List (Reentrant.Event Op Top)} {c : Config ConnectorLoop Nat} (hw : Unstarted w)
    (hnull : w.nullChannel = false)
    (h : system.stepper.Run (fun c e => StartsClear.holds c e) ⟨w, []⟩ es c) :
    .startDisconnected ∉ c.state.site.connector.failed ∧
      (c.state.site.connector.state ≠ .kDisconnected → c.state.site.connector.retryTimers = []) ∧
      c.state.nullChannel = false ∧
      (c.state.site.connector.state ≠ .kConnecting → Disposed c.state.site.connector.sockets) ∧
      (c.state.site.connector.state = .kConnecting → ∃ fd, Underway fd c.state.site.connector.sockets) := by
  have hend := (keeps_clear.run ⟨hw.oneAttempt, hw.attached, hnull⟩ h).1
  refine ⟨hend.one.failed, hend.one.busy, hend.channel, hend.attached.ledger.idle, fun hs => ?_⟩
  obtain ⟨fd, hfd, -⟩ := hend.attached.ledger.connecting hs
  exact ⟨fd, hfd⟩

instance (op : Op) (w : ConnectorLoop) : Decidable (StartsClear.call op w) :=
  match op with
  | .start _ => inferInstanceAs (Decidable (_ ∧ _ ∧ _))
  | .stop | .release => instDecidableTrue

instance (e : Top) (w : ConnectorLoop) : Decidable (StartsClear.top e w) :=
  match e with
  | .retryTimer _ => inferInstanceAs (Decidable (_ = _))
  | .handleEvent _ _ _ | .stopInLoop | .doPendingFunctors | .runFunctor => instDecidableTrue

instance (op : Op) (w : ConnectorLoop) : Decidable (StartsIdle.call op w) :=
  match op with
  | .start _ => inferInstanceAs (Decidable (_ ∧ _))
  | .stop | .release => instDecidableTrue

instance (e : Top) (w : ConnectorLoop) : Decidable (StartsIdle.top e w) := instDecidableTrue

def unstarted : ConnectorLoop := { site := { connector := { id := 0 } } }

theorem unstarted_ok : Unstarted unstarted := ⟨rfl, rfl, rfl, rfl, rfl⟩

/-- The first attempt is refused, the connector is stopped before its timer fires, and is started again after it
    has fired. It is stopped once more, and started when the channel has been reset. -/
theorem one_attempt_restarted :
    ∃ c, system.stepper.Run (fun c e => StartsClear.holds c e) ⟨unstarted, []⟩
        [.call (.start ⟨10, ECONNREFUSED⟩), .call .stop, .top .stopInLoop, .top (.retryTimer ⟨11, 0⟩),
          .call (.start ⟨12, EINPROGRESS⟩), .call .stop, .top .stopInLoop, .top .doPendingFunctors, .top .runFunctor,
          .call (.start ⟨13, EINPROGRESS⟩)] c ∧
      c.state.site.connector.sockets = [.created 13, .closed 12, .created 12, .closed 10, .created 10] ∧
      .startDisconnected ∉ c.state.site.connector.failed ∧
      (c.state.site.connector.state ≠ .kDisconnected → c.state.site.connector.retryTimers = []) ∧
      c.state.nullChannel = false ∧
      (c.state.site.connector.state ≠ .kConnecting → Disposed c.state.site.connector.sockets) ∧
      (c.state.site.connector.state = .kConnecting → ∃ fd, Underway fd c.state.site.connector.sockets) :=
  Stepper.Run.replay rfl fun run => ⟨rfl, one_attempt unstarted_ok rfl run⟩

/-- The connector is started again before the timer of the refused attempt fires: the timer begins a second
    attempt during the one that `start` has begun. A connector that is stopped and started at once during an
    attempt, and one that is started again after it has connected, begin a second one too. If it is started while a
    reset is queued, the reset destroys the new channel, the next `stopInLoop` follows a null pointer, and a third
    socket is made while the second is open. -/
theorem second_attempt :
    (∃ c, system.stepper.Run (fun _ _ => True) ⟨unstarted, []⟩
        [.call (.start ⟨10, ECONNREFUSED⟩), .call .stop, .top .stopInLoop, .call (.start ⟨11, EINPROGRESS⟩),
          .top (.retryTimer ⟨12, EINPROGRESS⟩)] c ∧
      .startDisconnected ∈ c.state.site.connector.failed ∧
      c.state.site.connector.sockets = [.created 12, .created 11, .closed 10, .created 10]) ∧
    (∃ c, system.stepper.Run (fun _ _ => True) ⟨unstarted, []⟩
        [.call (.start ⟨10, EINPROGRESS⟩), .call .stop, .call (.start ⟨11, EINPROGRESS⟩)] c ∧
      .startDisconnected ∈ c.state.site.connector.failed ∧
      c.state.site.connector.sockets = [.created 11, .created 10]) ∧
    (∃ c, system.stepper.Run (fun _ _ => True) ⟨unstarted, []⟩
        [.call (.start ⟨10, EINPROGRESS⟩), .top (.handleEvent POLLOUT 0 false), .ret, .call .stop,
          .call (.start ⟨11, EINPROGRESS⟩)] c ∧
      .startDisconnected ∈ c.state.site.connector.failed) ∧
    ∃ c, system.stepper.Run (fun c e => StartsIdle.holds c e) ⟨unstarted, []⟩
        [.call (.start ⟨10, EINPROGRESS⟩), .call .stop, .top .stopInLoop, .call (.start ⟨11, EINPROGRESS⟩),
          .top .doPendingFunctors, .top .runFunctor, .call .stop, .top .stopInLoop,
          .call (.start ⟨12, EINPROGRESS⟩)] c ∧
      c.state.nullChannel = true ∧ .created 11 ∈ c.state.site.connector.sockets ∧
      .closed 11 ∉ c.state.site.connector.sockets ∧ .created 12 ∈ c.state.site.connector.sockets :=
  ⟨Stepper.Run.replay rfl fun _ => ⟨by decide, rfl⟩, Stepper.Run.replay rfl fun _ => ⟨by decide, rfl⟩,
    Stepper.Run.replay rfl fun _ => by decide, Stepper.Run.replay rfl fun _ => ⟨rfl, by decide⟩⟩

end ConnectorLoop
end Muduo
