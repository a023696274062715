import Muduo.Theorems.ConnectionRules

/-! # A connection that is down stays out of the poller

`Channel::update` registers its channel whatever happened before, so a channel stays out of the poller only
as long as nobody changes its mask. `handleClose` leaves `reading_` as it is, and `startReadInLoop` and
`stopReadInLoop` test neither the state nor whether the channel was removed: a call of them that comes late
registers the channel of a connection that is down. In every run without such a call, and without a
dispatch that closes a removed connection, a connection that is down has an empty mask, and a removed one is
not registered. -/

namespace Muduo
open Lib

/-! ## Channels in the poller -/

namespace Channel

/-- The poller has the channel: in its map, and in the list of the kernel unless its mask was cleared. -/
structure Registered (c : Channel) (p : EPollPoller) : Prop where
  channels : p.channels c.fd = some c.id
  epoll : c.index = EPollPoller.kAdded ∧ p.epoll c.fd = some (c.id, c.events) ∨
    c.index = EPollPoller.kDeleted ∧ p.epoll c.fd = none

structure Unregistered (c : Channel) (p : EPollPoller) : Prop where
  channels : p.channels c.fd = none
  epoll : p.epoll c.fd = none
  index : c.index = EPollPoller.kNew

section Registration
variable {c : Channel} {p : EPollPoller} {l : EventLoop} {f : Mask → Mask}

theorem check_of_holds {a : PollerAssert} {holds : Bool} (h : holds = true) : p.check a holds = p := if_pos h

theorem updateChannel_new (hi : c.index = EPollPoller.kNew) (he : p.epoll c.fd = none) :
    p.updateChannel c =
      ((p.setChannel c.fd (some c.id)).setEpoll c.fd (some (c.id, c.events)), EPollPoller.kAdded) := by
  have hnone : ((p.setChannel c.fd (some c.id)).epoll c.fd).isNone = true := Option.isNone_iff_eq_none.mpr he
  simp only [EPollPoller.updateChannel, hi, true_or, if_true, EPollPoller.ctlAdd, hnone]

theorem updateChannel_deleted (hi : c.index = EPollPoller.kDeleted) (he : p.epoll c.fd = none) :
    p.updateChannel c = (p.setEpoll c.fd (some (c.id, c.events)), EPollPoller.kAdded) := by
  have hne : EPollPoller.kDeleted ≠ EPollPoller.kNew := by decide
  have hnone : (p.epoll c.fd).isNone = true := Option.isNone_iff_eq_none.mpr he
  simp only [EPollPoller.updateChannel, hi, or_true, if_true, if_neg hne, EPollPoller.ctlAdd, hnone]

theorem updateChannel_added (hi : c.index = EPollPoller.kAdded) (hc : p.channels c.fd = some c.id) :
    p.updateChannel c =
      if c.isNoneEvent then (p.ctlDel c, EPollPoller.kDeleted) else (p.ctlMod c, EPollPoller.kAdded) := by
  have hne : ¬(c.index = EPollPoller.kNew ∨ c.index = EPollPoller.kDeleted) := by rw [hi]; decide
  rw [EPollPoller.updateChannel, if_neg hne]
  dsimp only
  rw [check_of_holds (Option.isSome_of_eq_some hc), check_of_holds (decide_eq_true hc),
    check_of_holds (decide_eq_true hi), hi]

/-- After `updateChannel` the poller has the channel with its mask, whether or not it knew it before. -/
theorem Registered.updateChannel {d : Channel} (h : Registered c p ∨ Unregistered c p) (hid : d.id = c.id)
    (hfd : d.fd = c.fd) (hindex : d.index = c.index) :
    Registered { d with index := (p.updateChannel d).2 } (p.updateChannel d).1 ∧
      (p.updateChannel d).1.failed = p.failed := by
  rcases h with ⟨hchannels, ⟨hi, hepoll⟩ | ⟨hi, hepoll⟩⟩ | ⟨hchannels, hepoll, hi⟩
  all_goals rw [← hfd] at hchannels hepoll; rw [← hindex] at hi
  · rw [← hid] at hchannels
    rw [updateChannel_added hi hchannels]
    split
    · exact ⟨⟨hchannels, Or.inr ⟨rfl, if_pos rfl⟩⟩, rfl⟩
    · rw [EPollPoller.ctlMod, if_pos (Option.isSome_of_eq_some hepoll)]
      exact ⟨⟨hchannels, Or.inl ⟨rfl, if_pos rfl⟩⟩, rfl⟩
  · rw [← hid] at hchannels
    rw [updateChannel_deleted hi hepoll]
    exact ⟨⟨hchannels, Or.inl ⟨rfl, if_pos rfl⟩⟩, rfl⟩
  · rw [updateChannel_new hi hepoll]
    exact ⟨⟨if_pos rfl, Or.inl ⟨rfl, if_pos rfl⟩⟩, rfl⟩

theorem Registered.setEvents (h : Registered c l.poller ∨ Unregistered c l.poller) :
    Registered (c.setEvents f l).2 (c.setEvents f l).1.poller ∧
      (c.setEvents f l).1.poller.failed = l.poller.failed :=
  Registered.updateChannel (d := { c with events := f c.events, addedToLoop := true }) h rfl rfl rfl

theorem Registered.removeChannel (h : Registered c p) (he : c.isNoneEvent = true) :
    Unregistered { c with index := (p.removeChannel c).2 } (p.removeChannel c).1 ∧
      (p.removeChannel c).1.failed = p.failed := by
  have hindex : c.index = EPollPoller.kAdded ∨ c.index = EPollPoller.kDeleted := h.epoll.imp And.left And.left
  have hsome : (p.channels c.fd).isSome = true := Option.isSome_of_eq_some h.channels
  have heq : p.removeChannel c =
      (if c.index = EPollPoller.kAdded then (p.setChannel c.fd none).ctlDel c else p.setChannel c.fd none,
        EPollPoller.kNew) := by
    rw [EPollPoller.removeChannel, check_of_holds hsome, check_of_holds (decide_eq_true h.channels),
      check_of_holds he, check_of_holds (decide_eq_true hindex), check_of_holds hsome]
  rw [heq]
  rcases h.epoll with ⟨hadded, -⟩ | ⟨hdeleted, hepoll⟩
  · rw [if_pos hadded]
    exact ⟨⟨if_pos rfl, if_pos rfl, rfl⟩, rfl⟩
  · have hne : c.index ≠ EPollPoller.kAdded := by rw [hdeleted]; decide
    rw [if_neg hne]
    exact ⟨⟨if_pos rfl, hepoll, rfl⟩, rfl⟩

theorem Registered.remove (h : Registered c l.poller) (he : c.events = 0) :
    Unregistered (c.remove l).2 (c.remove l).1.poller ∧ (c.remove l).1.poller.failed = l.poller.failed ∧
      (c.remove l).2.failed = c.failed ∧ (c.remove l).2.events = 0 ∧ (c.remove l).2.addedToLoop = false := by
  have hnone : c.isNoneEvent = true := beq_iff_eq.mpr he
  have hreg : Registered { c with addedToLoop := false } l.poller := ⟨h.channels, h.epoll⟩
  have hremoved := hreg.removeChannel hnone
  rw [Channel.remove, if_pos hnone, EventLoop.removeChannel]
  dsimp only
  split
  · exact ⟨hremoved.1, hremoved.2, rfl, he, rfl⟩
  · exact ⟨hremoved.1, hremoved.2, rfl, he, rfl⟩

end Registration
end Channel

/-! ## The channel of a connection -/

namespace Site

structure Tracked (s : Site) : Prop where
  mask : s.conn.state = .kDisconnected → s.conn.channel.events = 0
  new : s.conn.state = .kConnecting → s.conn.destroyed = false ∧ s.conn.channel.Unregistered s.loop.poller
  live : s.conn.state ≠ .kConnecting → s.conn.destroyed = false → s.conn.channel.Registered s.loop.poller
  dead : s.conn.destroyed = true → s.conn.state = .kDisconnected ∧ s.conn.destroying = true ∧
    s.conn.channel.Unregistered s.loop.poller ∧ s.conn.channel.addedToLoop = false
  failed : s.conn.channel.failed = [] ∧ s.loop.poller.failed = []

/-- What user code may change: a connection that is down stays down, and once `connectDestroyed` has begun
    only it removes the channel. -/
structure Later (s t : Site) : Prop where
  established : s.conn.state ≠ .kConnecting → t.conn.state ≠ .kConnecting
  down : s.conn.state = .kDisconnected → t.conn.state = .kDisconnected
  destroying : s.conn.destroying = true → t.conn.destroying = true ∧ t.conn.destroyed = s.conn.destroyed

section Steps
variable {s t u : Site} {f : Mask → Mask} {C : Type} {c : C}

theorem Later.refl (s : Site) : Later s s := ⟨id, id, fun h => ⟨h, rfl⟩⟩

theorem Later.trans (h : Later s t) (h' : Later t u) : Later s u where
  established hs := h'.established (h.established hs)
  down hs := h'.down (h.down hs)
  destroying hs :=
    have ht := h.destroying hs
    have hu := h'.destroying ht.1
    ⟨hu.1, hu.2.trans ht.2⟩

/-- The steps that touch neither the channel nor the poller. -/
structure SameChannel (s t : Site) : Prop where
  channel : t.conn.channel = s.conn.channel := by rfl
  poller : t.loop.poller = s.loop.poller := by rfl
  state : t.conn.state = s.conn.state := by rfl
  destroying : t.conn.destroying = s.conn.destroying := by rfl
  destroyed : t.conn.destroyed = s.conn.destroyed := by rfl

theorem SameChannel.later (h : SameChannel s t) : Later s t where
  established hs := h.state ▸ hs
  down hs := h.state ▸ hs
  destroying hs := ⟨h.destroying ▸ hs, h.destroyed⟩

theorem Tracked.of_same (h : Tracked s) (hsame : SameChannel s t) : Tracked t where
  mask hs := by
    rw [hsame.channel]
    exact h.mask (hsame.state ▸ hs)
  new hs := by
    rw [hsame.channel, hsame.poller, hsame.destroyed]
    exact h.new (hsame.state ▸ hs)
  live hs hd := by
    rw [hsame.channel, hsame.poller]
    exact h.live (hsame.state ▸ hs) (hsame.destroyed ▸ hd)
  dead hd := by
    rw [hsame.channel, hsame.poller, hsame.state, hsame.destroying]
    exact h.dead (hsame.destroyed ▸ hd)
  failed := by
    rw [hsame.channel, hsame.poller]
    exact h.failed

theorem Tracked.step_same (h : Tracked t) (hlater : Later s t) (hsame : SameChannel t u) : Tracked u ∧ Later s u :=
  ⟨h.of_same hsame, hlater.trans hsame.later⟩

/-- The mask of a channel that was not removed may change, if it stays empty on a connection that is down. -/
theorem Tracked.setEvents (h : Tracked s) (hs : s.conn.state ≠ .kConnecting) (hd : s.conn.destroyed = false)
    (hmask : s.conn.state = .kDisconnected → f s.conn.channel.events = 0) :
    Tracked (s.onChannel (Channel.setEvents f)) where
  mask := hmask
  new hs' := absurd hs' hs
  live _ _ := (Channel.Registered.setEvents (Or.inl (h.live hs hd))).1
  dead hd' := absurd (hd.symm.trans hd') (by decide)
  failed := ⟨h.failed.1, (Channel.Registered.setEvents (Or.inl (h.live hs hd))).2.trans h.failed.2⟩

theorem Tracked.not_destroyed (h : Tracked s) (hs : s.conn.state ≠ .kDisconnected) : s.conn.destroyed = false := by
  cases hd : s.conn.destroyed
  · rfl
  · exact absurd (h.dead hd).1 hs

theorem Tracked.ne_kDisconnected_of_isWriting (h : Tracked s) (hw : s.conn.channel.isWriting = true) :
    s.conn.state ≠ .kDisconnected := by
  intro hs
  simp [Channel.isWriting, Mask.has, h.mask hs] at hw

theorem tracked_keptByOutput (s : Site) :
    KeptByOutput fun t => (Tracked t ∧ Later s t) ∧ t.conn.state ≠ .kConnecting where
  record _ h := ⟨h.1.1.step_same h.1.2 {}, h.2⟩
  queue _ h := ⟨h.1.1.step_same h.1.2 {}, h.2⟩
  append h := ⟨h.1.1.step_same h.1.2 {}, h.2⟩
  retrieve h := ⟨h.1.1.step_same h.1.2 {}, h.2⟩
  enable hs h :=
    ⟨⟨h.1.1.setEvents h.2 (h.1.1.not_destroyed hs) fun hdown => absurd hdown hs,
      h.1.2.trans ⟨id, id, fun hd => ⟨hd, rfl⟩⟩⟩, h.2⟩
  disable hw h :=
    have hs := h.1.1.ne_kDisconnected_of_isWriting hw
    ⟨⟨h.1.1.setEvents h.2 (h.1.1.not_destroyed hs) fun hdown => absurd hdown hs,
      h.1.2.trans ⟨id, id, fun hd => ⟨hd, rfl⟩⟩⟩, h.2⟩

theorem Tracked.startReadInLoop (h : Tracked s) (hs : s.conn.state ≠ .kConnecting)
    (hdown : s.conn.state ≠ .kDisconnected) : Tracked s.startReadInLoop ∧ Later s s.startReadInLoop := by
  unfold Site.startReadInLoop
  split
  · have hset : Tracked (s.onChannel Channel.enableReading) :=
      h.setEvents hs (h.not_destroyed hdown) fun hdown' => absurd hdown' hdown
    exact ⟨hset.of_same {}, id, id, fun hd => ⟨hd, rfl⟩⟩
  · exact ⟨h, .refl s⟩

theorem Tracked.stopReadInLoop (h : Tracked s) (hs : s.conn.state ≠ .kConnecting)
    (hlate : s.conn.destroyed = true → s.conn.reading = false) :
    Tracked s.stopReadInLoop ∧ Later s s.stopReadInLoop := by
  unfold Site.stopReadInLoop
  split
  · rename_i hreading
    have hd : s.conn.destroyed = false := by
      cases hd : s.conn.destroyed
      · rfl
      · have hevents := h.mask (h.dead hd).1
        simp [hlate hd, Channel.isReading, Mask.has, hevents] at hreading
    have hset : Tracked (s.onChannel Channel.disableReading) :=
      h.setEvents hs hd fun hdown => by rw [h.mask hdown]; exact BitVec.zero_and
    exact ⟨hset.of_same {}, id, id, fun hd => ⟨hd, rfl⟩⟩
  · exact ⟨h, .refl s⟩

/-! ## Functions that run callbacks -/

theorem Tracked.disconnect (h : Tracked s) (hs : s.conn.state ≠ .kConnecting) (hd : s.conn.destroyed = false) :
    Tracked s.disconnect := by
  have hset := Channel.Registered.setEvents (f := fun _ => Channel.kNoneEvent) (Or.inl (h.live hs hd))
  exact {
    mask := fun _ => rfl
    new := fun hs' => by cases hs'
    live := fun _ _ => hset.1
    dead := fun hd' => by cases hd.symm.trans hd'
    failed := ⟨h.failed.1, hset.2.trans h.failed.2⟩ }

theorem later_disconnect : Later s s.disconnect where
  established _ hs := by cases hs
  down _ := rfl
  destroying hs := ⟨hs, rfl⟩

/-- The callbacks of a connection that has gone down find it tracked. -/
theorem wp_callback_tracked {isSet : TcpConnection → Bool} {e : TcpConnection → ConnEvent} (h : Tracked t)
    (hlater : Later s t) : (callbackIf isSet e c).wp Tracked Later (fun _ u => Tracked u ∧ Later s u) t := by
  refine wp_callbackIf (fun _ => ?_) (fun _ => ⟨h, hlater⟩)
  obtain ⟨hrecord, hlater'⟩ := h.step_same (u := t.record (e t.conn)) hlater {}
  exact ⟨hrecord, fun u hu hu' => ⟨hu, hlater'.trans hu'⟩⟩

theorem wp_handleClose_tracked (h : Tracked s) (hs : s.conn.state ≠ .kConnecting) (hd : s.conn.destroyed = false) :
    handleClose.wp Tracked Later (fun _ t => Tracked t ∧ Later s t) s := by
  simp only [handleClose, Code.wp_bind, Code.wp_modify]
  have hassert : ∀ holds, SameChannel s (s.assertState .closeState holds) := by
    intro holds
    unfold assertState
    split <;> exact {}
  obtain ⟨ht, hlater⟩ := h.step_same (.refl s)
    (hassert (decide (s.conn.state = .kConnected ∨ s.conn.state = .kDisconnecting)))
  have hdown := ht.disconnect (hlater.established hs) ((hassert _).destroyed.trans hd)
  refine Code.wp_mono (fun _ u hu => ?_) (wp_callback_tracked hdown (hlater.trans later_disconnect))
  exact wp_callback_tracked hu.1 hu.2

theorem wp_forceCloseInLoop_tracked (h : Tracked s) :
    forceCloseInLoop.wp Tracked Later (fun _ t => Tracked t ∧ Later s t) s := by
  refine wp_forceCloseInLoop (fun hs => ?_) (fun _ => ⟨h, .refl s⟩)
  have hne := (open_iff s).mp hs
  exact wp_handleClose_tracked h hne.1 (h.not_destroyed hne.2)

theorem Tracked.setDisconnecting (h : Tracked s) (hs : s.conn.state ≠ .kConnecting)
    (hdown : s.conn.state ≠ .kDisconnected) : Tracked (s.setState .kDisconnecting) where
  mask hs' := by cases hs'
  new hs' := by cases hs'
  live _ hd := h.live hs hd
  dead hd := absurd (h.dead hd).1 hdown
  failed := h.failed

theorem later_setDisconnecting (hdown : s.conn.state ≠ .kDisconnected) : Later s (s.setState .kDisconnecting) where
  established _ hs := by cases hs
  down hs := absurd hs hdown
  destroying hd := ⟨hd, rfl⟩

theorem wp_forceClose_tracked (h : Tracked s) :
    forceClose.wp Tracked Later (fun _ t => Tracked t ∧ Later s t) s := by
  refine wp_forceClose (fun hs => ?_) (fun _ => ⟨h, .refl s⟩)
  have hne := (open_iff s).mp hs
  have hset := h.setDisconnecting hne.1 hne.2
  have hlater := later_setDisconnecting hne.2
  exact Code.wp_mono (fun _ t ht => ⟨ht.1, hlater.trans ht.2⟩)
    (wp_handleClose_tracked hset (hlater.established hne.1) (h.not_destroyed hne.2))

theorem Tracked.removeChannel (h : Tracked s) (hs : s.conn.state = .kDisconnected) (hd : s.conn.destroyed = false)
    (hdestroying : s.conn.destroying = true) : Tracked s.removeChannel := by
  have hlive := h.live (by simp [hs]) hd
  obtain ⟨hun, hpoller, hfailed, hevents, hadded⟩ := hlive.remove (h.mask hs)
  exact {
    mask := fun _ => hevents
    new := fun hs' => by cases hs.symm.trans hs'
    live := fun _ hd' => by cases hd'
    dead := fun _ => ⟨hs, hdestroying, hun, hadded⟩
    failed := ⟨hfailed.trans h.failed.1, hpoller.trans h.failed.2⟩ }

theorem wp_connectDestroyed_tracked (h : Tracked s) (hs : s.conn.state ≠ .kConnecting)
    (hdestroying : s.conn.destroying = false) :
    (connectDestroyed c).wp Tracked Later (fun _ t => Tracked t ∧ Later s t) s := by
  have hd : s.conn.destroyed = false := by
    cases hd : s.conn.destroyed
    · rfl
    · exact absurd (hdestroying.symm.trans (h.dead hd).2.1) (by decide)
  have hbegin : Tracked { s with conn := { s.conn with destroying := true } } :=
    ⟨h.mask, h.new, h.live, fun hd' => absurd (hd.symm.trans hd') (by decide), h.failed⟩
  have hlater : ∀ t : Site, t.conn.state = .kDisconnected → Later s t := fun t ht =>
    ⟨fun _ => by rw [ht]; decide, fun _ => ht, fun hs' => absurd (hdestroying.symm.trans hs') (by decide)⟩
  simp only [connectDestroyed, Code.wp_bind, Code.wp_get, Code.wp_modify]
  refine Code.wp_when (fun _ => ?_) (fun hclosed => ?_)
  · simp only [Code.wp_bind, Code.wp_modify]
    have hdown := hbegin.disconnect hs hd
    refine Code.wp_mono (fun _ t ht => ?_) (wp_callback_tracked hdown (.refl _))
    -- The callback cannot destroy the connection again, so the channel is still there to be removed.
    obtain ⟨ht, hlater'⟩ := ht
    have hdown' : t.conn.state = .kDisconnected := hlater'.down rfl
    obtain ⟨hdestroying', hd'⟩ := hlater'.destroying rfl
    exact ⟨ht.removeChannel hdown' (hd'.trans hd) hdestroying', hlater _ hdown'⟩
  · have hdown : s.conn.state = .kDisconnected := eq_kDisconnected_of_not_open hclosed hs
    exact ⟨hbegin.removeChannel hdown hd rfl, hlater _ hdown⟩

theorem wp_connectEstablished_tracked (h : Tracked s) (hs : s.conn.state = .kConnecting) :
    (connectEstablished c).wp Tracked Later (fun _ t => Tracked t) s := by
  have hassert : s.assertState .establishedConnecting (decide (s.conn.state = .kConnecting)) = s :=
    if_pos (decide_eq_true hs)
  obtain ⟨hd, hun⟩ := h.new hs
  have hset := Channel.Registered.setEvents (f := (· ||| Channel.kReadEvent)) (Or.inr hun)
  simp only [connectEstablished, Code.wp_bind, Code.wp_modify, establish, hassert]
  refine Code.wp_mono (fun _ t ht => ht.1) (wp_callback_tracked ?_ (.refl _))
  exact {
    mask := fun hs' => by cases hs'
    new := fun hs' => by cases hs'
    live := fun _ _ => hset.1
    dead := fun hd' => by cases hd.symm.trans hd'
    failed := ⟨h.failed.1, hset.2.trans h.failed.2⟩ }

theorem Tracked.setEventHandling {b : Bool} (h : Tracked s) : Tracked (s.setEventHandling b) where
  mask := h.mask
  new hs := ⟨(h.new hs).1, (h.new hs).2.channels, (h.new hs).2.epoll, (h.new hs).2.index⟩
  live hs hd := ⟨(h.live hs hd).channels, (h.live hs hd).epoll⟩
  dead hd :=
    have ⟨hdown, hdestroying, hun, hadded⟩ := h.dead hd
    ⟨hdown, hdestroying, ⟨hun.channels, hun.epoll, hun.index⟩, hadded⟩
  failed := h.failed

theorem wp_handleEvent_tracked {revents : Mask} {r : ReadResult} {w : WriteResult} (h : Tracked s)
    (hs : s.conn.state ≠ .kConnecting)
    (htwice : ¬(revents.hangsUp ∧ revents.isReadable ∧ r.isEof = true))
    (hlate : s.conn.destroyed = true → ¬revents.hangsUp ∧ ¬(revents.isReadable ∧ r.isEof = true)) :
    (handleEvent revents r w).wp Tracked Later (fun _ t => Tracked t) s := by
  have hlive : (revents.hangsUp ∨ revents.isReadable ∧ r.isEof = true) → s.conn.destroyed = false := by
    intro hcloses
    cases hd : s.conn.destroyed
    · rfl
    · exact (hcloses.elim (hlate hd).1 (hlate hd).2).elim
  have hbegin : Tracked (s.setEventHandling true) := h.setEventHandling
  -- The dispatch closes the connection at most once, so where it does nothing has run before in it.
  refine wp_handleEvent
    (A := fun t => Tracked t ∧ t.conn.state ≠ .kConnecting ∧
      (revents.isReadable ∧ r.isEof = true → t.conn.destroyed = false))
    (B := fun t => Tracked t ∧ t.conn.state ≠ .kConnecting)
    (fun hhup => ?_) (fun _ => ⟨hbegin, hs, fun heof => hlive (Or.inr heof)⟩) (fun hreadable t ht => ?_)
    (fun t ht => ⟨ht.1, ht.2.1⟩) (fun t ht => ?_) (fun t ht => ht.1.setEventHandling)
  · refine Code.wp_mono (fun _ t ht => ?_) (wp_handleClose_tracked hbegin hs (hlive (Or.inl hhup)))
    exact ⟨ht.1, ht.2.established hs, fun heof => absurd ⟨hhup, heof⟩ htwice⟩
  · obtain ⟨ht, hestablished, heof⟩ := ht
    have hread : ∀ data, Tracked (t.readFd data) := fun data => ht.of_same {}
    refine wp_handleRead (fun hr => ?_) (fun _ data => ?_) (fun _ => ⟨ht, hestablished⟩)
    · exact Code.wp_mono (fun _ u hu => ⟨hu.1, hu.2.established hestablished⟩)
        (wp_handleClose_tracked ht hestablished (heof ⟨hreadable, hr⟩))
    · exact Code.wp_mono (fun _ u hu => ⟨hu.1, hu.2.established hestablished⟩)
        (wp_callback_tracked (hread data) (.refl _))
  · obtain ⟨⟨hwritten, -⟩, hestablished⟩ := (tracked_keptByOutput t).handleWrite ⟨⟨ht.1, .refl t⟩, ht.2⟩
    exact ⟨hwritten, hestablished⟩

end Steps

/-! ## Every run -/

/-- A new connection in a loop that does not know its channel. -/
structure Unused (s : Site) : Prop where
  state : s.conn.state = .kConnecting
  destroyed : s.conn.destroyed = false
  channel : s.conn.channel.Unregistered s.loop.poller
  failed : s.conn.channel.failed = [] ∧ s.loop.poller.failed = []

/-- A functor that touches the channel of a connection finds it in a state in which it may. -/
def FunctorInTime (s : Site) : Option Functor → Prop
  | some (.startReadInLoop _) => s.conn.state ≠ .kDisconnected
  | some (.stopReadInLoop _) => s.conn.destroyed = true → s.conn.reading = false
  | _ => True

/-- The runs in which `startRead` is not executed on a connection that is down, nor `stopRead` on a removed
    one that is still marked as reading; in which a dispatch does not close a connection twice, nor a removed
    one; and in which no other thread sets the state of a connection that has gone down since it tested it.
    Users know a connection from `connectEstablished` on, and `connectDestroyed` is called once. -/
def InTime : Reentrant.Cond Site Op Top where
  call op s := s.conn.state ≠ .kConnecting ∧
    match op with
    | .startRead => s.conn.state ≠ .kDisconnected
    | .stopRead => s.conn.destroyed = true → s.conn.reading = false
    | .connectDestroyed => s.conn.destroying = false
    | .stepElsewhere (.setState _) => s.conn.state ≠ .kDisconnected
    | _ => True
  top
    | .handleEvent revents r _, s =>
      ¬(revents.hangsUp ∧ revents.isReadable ∧ r.isEof = true) ∧
        (s.conn.destroyed = true → ¬revents.hangsUp ∧ ¬(revents.isReadable ∧ r.isEof = true))
    | .runFunctor _, s => s.conn.state ≠ .kConnecting ∧ FunctorInTime s s.loop.queue.functors.head?
    | _, _ => True

instance (s : Site) (f : Option Functor) : Decidable (FunctorInTime s f) :=
  match f with
  | some (.startReadInLoop _) => inferInstanceAs (Decidable (_ ≠ _))
  | some (.stopReadInLoop _) => inferInstanceAs (Decidable (_ → _))
  | some (.sendInLoop _ _) | some (.shutdownInLoop _) | some (.forceCloseInLoop _) | some (.writeComplete _)
  | some (.highWaterMark _ _) | some (.resetChannel _ _) | none => instDecidableTrue

instance (op : Op) (s : Site) : Decidable (InTime.call op s) :=
  match op with
  | .startRead => inferInstanceAs (Decidable (_ ≠ _ ∧ _ ≠ _))
  | .stopRead => inferInstanceAs (Decidable (_ ≠ _ ∧ (_ → _)))
  | .connectDestroyed => inferInstanceAs (Decidable (_ ≠ _ ∧ _ = _))
  | .stepElsewhere (.setState _) => inferInstanceAs (Decidable (_ ≠ _ ∧ _ ≠ _))
  | .send _ _ | .shutdown | .forceClose | .callElsewhere _ | .stepElsewhere (.queueInLoop _) =>
    inferInstanceAs (Decidable (_ ≠ _ ∧ True))

instance (t : Top) (s : Site) : Decidable (InTime.top t s) :=
  match t with
  | .handleEvent _ _ _ => inferInstanceAs (Decidable (¬_ ∧ (_ → _)))
  | .runFunctor _ => inferInstanceAs (Decidable (_ ≠ _ ∧ FunctorInTime _ _))
  | .connectEstablished | .doPendingFunctors => instDecidableTrue

theorem wp_runFunctor_tracked {s : Site} {f : Functor} {result : WriteResult} (h : Tracked s)
    (hs : s.conn.state ≠ .kConnecting) (hc : FunctorInTime s (some f)) :
    (runFunctor f result).wp Tracked Later (fun _ t => Tracked t) s := by
  have houtput := tracked_keptByOutput s
  cases f with
  | sendInLoop i message => exact (houtput.sendInLoop ⟨⟨h, .refl _⟩, hs⟩).1.1
  | shutdownInLoop i => exact (houtput.shutdownInLoop ⟨⟨h, .refl _⟩, hs⟩).1.1
  | forceCloseInLoop i => exact Code.wp_mono (fun _ t ht => ht.1) (wp_forceCloseInLoop_tracked h)
  | startReadInLoop i => exact (h.startReadInLoop hs hc).1
  | stopReadInLoop i => exact (h.stopReadInLoop hs hc).1
  | writeComplete | highWaterMark =>
    simp only [runFunctor, Code.wp_bind, Code.wp_get]
    exact Code.wp_when (fun _ => ⟨h, fun t ht _ => ht⟩) (fun _ => h)
  | resetChannel => exact h

theorem tracked_keeps : system.Keeps InTime Tracked Tracked Later where
  refl := .refl
  trans := .trans
  inner h := h
  outer _ ht _ := ht
  api := by
    intro op s h hc
    obtain ⟨hs, hc⟩ := hc
    have houtput := tracked_keptByOutput s
    cases op with
    | send message result => exact (houtput.send ⟨⟨h, .refl s⟩, hs⟩).1
    | shutdown =>
      simp only [system, api, Code.wp_modify, shutdown]
      split
      · rename_i hconnected
        have hdown : s.conn.state ≠ .kDisconnected := by simp [hconnected]
        have hlater := later_setDisconnecting hdown
        exact (houtput.shutdownInLoop ⟨⟨h.setDisconnecting hs hdown, hlater⟩, hlater.established hs⟩).1
      · exact ⟨h, .refl s⟩
    | forceClose => exact wp_forceClose_tracked h
    | startRead => exact h.startReadInLoop hs hc
    | stopRead => exact h.stopReadInLoop hs hc
    | connectDestroyed => exact wp_connectDestroyed_tracked h hs hc
    | callElsewhere call => exact h.step_same (.refl s) {}
    | stepElsewhere e =>
      simp only [system, api, Code.wp_modify, stepElsewhere]
      split
      · cases e with
        | setState f =>
          have herase : Tracked { s with elsewhere := s.elsewhere.erase (.setState f) } :=
            h.of_same {}
          have hlater := later_setDisconnecting hc
          exact (herase.setDisconnecting hs hc).step_same ⟨hlater.established, hlater.down, hlater.destroying⟩ {}
        | queueInLoop f => exact h.step_same (.refl s) {}
      · exact ⟨h, .refl s⟩
  top := by
    intro t s h hen hc
    cases t with
    | connectEstablished => exact wp_connectEstablished_tracked h (of_decide_eq_true hen)
    | handleEvent revents r w =>
      have hs : s.conn.state ≠ .kConnecting := of_decide_eq_true (Bool.and_eq_true_iff.mp hen).2
      exact wp_handleEvent_tracked h hs hc.1 hc.2
    | doPendingFunctors => exact h.of_same {}
    | runFunctor result =>
      obtain ⟨hs, hc⟩ := hc
      simp only [system, top, Code.wp_bind, Code.wp_get]
      cases hq : s.loop.queue.functors with
      | nil => exact h
      | cons f rest =>
        rw [hq, List.head?_cons] at hc
        simp only [Code.wp_bind, Code.wp_modify]
        have hpop : Tracked
            { s with loop := { s.loop with queue := { s.loop.queue with functors := rest } } } :=
          h.of_same {}
        exact wp_runFunctor_tracked hpop hs hc

theorem Unused.tracked {s : Site} (h : Unused s) : Tracked s where
  mask hs := absurd (h.state.symm.trans hs) (by decide)
  new _ := ⟨h.destroyed, h.channel⟩
  live hs := absurd h.state hs
  dead hd := absurd (h.destroyed.symm.trans hd) (by decide)
  failed := h.failed

/-- The mask of a connection that is down is empty. After `connectDestroyed` the poller does not know the
    channel: it is in neither its map nor the list of the kernel, and it is not marked as added. No assert of
    `Channel::remove` and of the poller fails. -/
theorem dead_stays_out {s : Site} {es : List (Reentrant.Event Op Top)} {c : Config Site ConnCallback} (hs : Unused s)
    (h : system.stepper.Run (fun c e => InTime.holds c e) ⟨s, []⟩ es c) :
    let conn := c.state.conn
    let poller := c.state.loop.poller
    (conn.state = .kDisconnected → conn.channel.events = 0) ∧
      (conn.destroyed = true → conn.channel.Unregistered poller ∧ conn.channel.addedToLoop = false) ∧
      conn.channel.failed = [] ∧ poller.failed = [] := by
  have htracked : Tracked c.state := (tracked_keeps.run hs.tracked h).1
  exact ⟨htracked.mask, fun hd => (htracked.dead hd).2.2, htracked.failed⟩

/-- The callback that reports the end of a connection stops reading, and another thread that still holds the
    connection shuts it down after it was destroyed. -/
theorem dead_stays_out_late :
    ∃ c, system.stepper.Run (fun c e => InTime.holds c e) ⟨Site.new 0 5, []⟩
        [.top .connectEstablished, .ret, .call .forceClose, .call .stopRead, .ret, .call .connectDestroyed,
          .call (.callElsewhere .shutdown), .call .stopRead] c ∧
      c.state.conn.destroyed = true ∧ c.state.conn.channel.Unregistered c.state.loop.poller :=
  Stepper.Run.replay rfl fun run =>
    ⟨rfl, ((dead_stays_out ⟨rfl, rfl, ⟨rfl, rfl, rfl⟩, rfl, rfl⟩ run).2.1 rfl).1⟩

/-- `startRead` on a connection that is down: its mask is not empty, and the assert of `Channel::remove`
    fails. `stopRead` on a connection that was destroyed: its channel is registered again. -/
theorem dead_comes_back :
    (∃ c, system.stepper.Run (fun _ _ => True) ⟨Site.new 0 5, []⟩
        [.top .connectEstablished, .ret, .call .forceClose, .ret, .call .startRead, .call .connectDestroyed] c ∧
      c.state.conn.state = .kDisconnected ∧ c.state.conn.channel.events ≠ 0 ∧
      c.state.conn.channel.failed = [.removeNoneEvent]) ∧
    (∃ c, system.stepper.Run (fun _ _ => True) ⟨Site.new 0 5, []⟩
        [.top .connectEstablished, .ret, .call .forceClose, .ret, .call .connectDestroyed, .call .stopRead] c ∧
      c.state.conn.destroyed = true ∧ c.state.conn.channel.Registered c.state.loop.poller ∧
      c.state.conn.channel.addedToLoop = true) :=
  ⟨Stepper.Run.replay rfl fun _ => ⟨rfl, by decide, rfl⟩,
    Stepper.Run.replay rfl fun _ => ⟨rfl, ⟨rfl, Or.inl ⟨rfl, rfl⟩⟩, rfl⟩⟩

end Site
end Muduo
