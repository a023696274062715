import Muduo.Theorems.PollPoller

/-! # Either poller

The interest list of `epoll` and the entries of `poll` are compared for each descriptor. They agree as long as no
channel is used after its removal, where `PollPoller` finds a stale index, and no channel that is disabled is updated
without events again, where `EPollPoller` adds its descriptor back. -/

namespace Muduo
open Lib

namespace EPollPoller
variable {p : EPollPoller} {c : Channel} {a : PollerAssert} {n : Nat}

theorem check_of {q : Prop} [Decidable q] (h : q) : p.check a (decide q) = p := by
  simp [check, h]

theorem check_true {b : Bool} (h : b = true) : p.check a b = p := by
  rw [check, if_pos h]

/-- What the poller and the kernel know of the descriptor of a channel. -/
def Slot (c : Channel) (registered : Option ChannelId) (interest : Option (ChannelId × Mask)) : Prop :=
  if c.addedToLoop then
    registered = some c.id ∧
      (c.index = kAdded ∧ interest = some (c.id, c.events) ∨ c.index = kDeleted ∧ interest = none ∧ c.isNoneEvent)
  else c.index = kNew ∧ interest = none

theorem slot_of_added {registered : Option ChannelId} {interest : Option (ChannelId × Mask)} (hadded : c.addedToLoop)
    (hregistered : registered = some c.id)
    (h : c.index = kAdded ∧ interest = some (c.id, c.events) ∨ c.index = kDeleted ∧ interest = none ∧ c.isNoneEvent) :
    Slot c registered interest := by
  rw [Slot, if_pos hadded]
  exact ⟨hregistered, h⟩

theorem setChannel_eq_self {x : Option ChannelId} (h : p.channels n = x) : p.setChannel n x = p := by
  simp only [setChannel]
  congr 1
  funext m
  split
  · rename_i hm
    rw [hm, h]
  · rfl

theorem setEpoll_eq_self {x : Option (ChannelId × Mask)} (h : p.epoll n = x) : p.setEpoll n x = p := by
  simp only [setEpoll]
  congr 1
  funext m
  split
  · rename_i hm
    rw [hm, h]
  · rfl

theorem ctlAdd_of_none (h : p.epoll c.fd = none) : p.ctlAdd c = p.setEpoll c.fd (some (c.id, c.events)) :=
  if_pos (by rw [h]; rfl)

theorem updateChannel_new (hindex : c.index = kNew) (hnone : p.epoll c.fd = none) :
    p.updateChannel c = ((p.setChannel c.fd (some c.id)).setEpoll c.fd (some (c.id, c.events)), kAdded) := by
  have hadd : (p.setChannel c.fd (some c.id)).ctlAdd c =
      (p.setChannel c.fd (some c.id)).setEpoll c.fd (some (c.id, c.events)) := ctlAdd_of_none hnone
  simp only [updateChannel, hindex, true_or, if_true, hadd]

theorem updateChannel_deleted (hindex : c.index = kDeleted) (hnone : p.epoll c.fd = none) :
    p.updateChannel c = (p.setEpoll c.fd (some (c.id, c.events)), kAdded) := by
  have hnew : kDeleted ≠ kNew := by decide
  simp only [updateChannel, hindex, or_true, if_true, if_neg hnew, ctlAdd_of_none hnone]

theorem updateChannel_added (hindex : c.index = kAdded) (hsame : p.channels c.fd = some c.id)
    (hsome : (p.epoll c.fd).isSome) :
    p.updateChannel c =
      if c.isNoneEvent then (p.setEpoll c.fd none, kDeleted)
      else (p.setEpoll c.fd (some (c.id, c.events)), kAdded) := by
  have hnew : ¬(kAdded = kNew ∨ kAdded = kDeleted) := by decide
  have hcontains : (p.channels c.fd).isSome = true := by rw [hsame]; rfl
  simp only [updateChannel, hindex, if_neg hnew, check_true hcontains, check_of hsame, decide_true, check_true,
    ctlDel, ctlMod, if_pos hsome]

/-- The index after an update. -/
def indexAfter (c : Channel) : Int := if c.index = kAdded ∧ c.isNoneEvent then kDeleted else kAdded

theorem indexAfter_of_added (h : c.index = kAdded) : indexAfter c = if c.isNoneEvent then kDeleted else kAdded := by
  simp only [indexAfter, h, true_and]

theorem indexAfter_of_ne (h : c.index ≠ kAdded) : indexAfter c = kAdded := if_neg fun hc => h hc.1

open PollLoop (updated)

/-- An update of a channel, of which only the mask and the flag have changed since the slot was written. -/
theorem updateChannel_eq (op : ChannelOp) (h : Slot c (p.channels c.fd) (p.epoll c.fd)) :
    p.updateChannel (updated op c) =
      ((p.setChannel c.fd (some c.id)).setEpoll c.fd
        (if indexAfter (updated op c) = kAdded then some (c.id, op.mask c.events) else none),
        indexAfter (updated op c)) := by
  unfold Slot at h
  split at h
  case isTrue =>
    obtain ⟨hregistered, ⟨hindex, hinterest⟩ | ⟨hindex, hinterest, -⟩⟩ := h
    · have hadded : (updated op c).index = kAdded := hindex
      have hsome : (p.epoll (updated op c).fd).isSome := Option.isSome_of_eq_some hinterest
      rw [updateChannel_added hadded hregistered hsome, setChannel_eq_self hregistered, indexAfter_of_added hadded]
      split <;> rfl
    · have hdeleted : (updated op c).index = kDeleted := hindex
      have hne : (updated op c).index ≠ kAdded := by rw [hdeleted]; decide
      rw [updateChannel_deleted hdeleted hinterest, setChannel_eq_self hregistered, indexAfter_of_ne hne]
      rfl
  case isFalse =>
    obtain ⟨hindex, hinterest⟩ := h
    have hnew : (updated op c).index = kNew := hindex
    have hne : (updated op c).index ≠ kAdded := by rw [hnew]; decide
    rw [updateChannel_new hnew hinterest, indexAfter_of_ne hne]
    rfl

theorem removeChannel_eq (h : Slot c (p.channels c.fd) (p.epoll c.fd)) (hadded : c.addedToLoop) (hnone : c.isNoneEvent) :
    p.removeChannel { c with addedToLoop := false } = ((p.setChannel c.fd none).setEpoll c.fd none, kNew) := by
  rw [Slot, if_pos hadded] at h
  obtain ⟨hregistered, hslot⟩ := h
  have hcontains : (p.channels c.fd).isSome = true := by rw [hregistered]; rfl
  have hnone' : ({ c with addedToLoop := false } : Channel).isNoneEvent = true := hnone
  simp only [removeChannel, check_true hcontains, check_of hregistered, check_true hnone']
  rcases hslot with ⟨hindex, -⟩ | ⟨hindex, hinterest, -⟩
  · simp only [hindex, true_or, decide_true, check_true, check_true hcontains, if_true, ctlDel]
  · have hne : kDeleted ≠ kAdded := by decide
    have hsame : ((p.setChannel c.fd none).setEpoll c.fd none) = p.setChannel c.fd none := setEpoll_eq_self hinterest
    simp only [hindex, or_true, decide_true, check_true, check_true hcontains, if_neg hne, hsame]

end EPollPoller

namespace PollPoller
variable {p : PollPoller} {c : Channel} {a : PollAssert}

theorem failed_check (b : Bool) (h : p.failed ≠ []) : (p.check a b).failed ≠ [] := by
  unfold check
  split
  · exact h
  · exact List.cons_ne_nil _ _

/-- A channel with an index that is not in the map fails an assert. -/
theorem failed_of_unknown (hindex : 0 ≤ c.index) (hnone : p.channels.lookup c.fd = none) :
    (p.updateChannel c).1.failed ≠ [] := by
  have hcontains : (p.check .updateContains (p.channels.lookup c.fd).isSome).failed ≠ [] := by
    rw [hnone]
    exact List.cons_ne_nil _ _
  rw [updateChannel, if_neg (Int.not_lt.mpr hindex)]
  exact failed_check _ (failed_check _ (failed_check _ hcontains))

end PollPoller

namespace EPollLoop
open EPollPoller (Slot indexAfter kNew kAdded kDeleted)
open PollLoop (updated)
variable {fds : ChannelId → Nat} {s : EPollLoop} {i j : ChannelId}

/-- What holds after any operations that are allowed. -/
structure Inv (fds : ChannelId → Nat) (s : EPollLoop) : Prop where
  ok : ∀ i, PollLoop.Ok fds i (s.channels i)
  slot : ∀ i, Slot (s.channels i) (s.loop.poller.channels (fds i)) (s.loop.poller.epoll (fds i))
  known : ∀ n, (∀ i, fds i ≠ n) → s.loop.poller.epoll n = none
  pollerPassed : s.loop.poller.failed = []
  loopPassed : s.loop.failed = []
  quiet : s.loop.eventHandling = false

theorem Inv.new : Inv fds (new fds) :=
  ⟨fun _ => ⟨rfl, rfl, Nat.zero_lt_succ 7, rfl⟩, fun _ => ⟨rfl, rfl⟩, fun _ _ => rfl, rfl, rfl, rfl⟩

theorem Inv.passed (h : Inv fds s) : s.Passed := ⟨h.pollerPassed, h.loopPassed, fun i => (h.ok i).passed⟩

theorem perform_update {op : ChannelOp} (hop : op ≠ .remove) :
    s.perform i op =
      { channels := fun j =>
          if j = i then
            { updated op (s.channels i) with index := (s.loop.poller.updateChannel (updated op (s.channels i))).2 }
          else s.channels j
        loop := { s.loop with poller := (s.loop.poller.updateChannel (updated op (s.channels i))).1 } } := by
  cases op with
  | remove => exact absurd rfl hop
  | _ => rfl

theorem perform_remove (hnone : (s.channels i).isNoneEvent) (hquiet : s.loop.eventHandling = false) :
    s.perform i .remove =
      { channels := fun j =>
          if j = i then
            { s.channels i with
              addedToLoop := false
              index := (s.loop.poller.removeChannel { s.channels i with addedToLoop := false }).2 }
          else s.channels j
        loop :=
          { s.loop with
            poller := (s.loop.poller.removeChannel { s.channels i with addedToLoop := false }).1
            removed := (s.channels i).id :: s.loop.removed } } := by
  have hmay : s.loop.mayRemove (s.channels i).id = true := by
    rw [EventLoop.mayRemove, hquiet]
    rfl
  simp only [perform, Channel.remove, hnone, if_true, EventLoop.removeChannel, hmay]

/-- A channel changes, and the slot of its descriptor. -/
theorem Inv.set (h : Inv fds s) (hfds : Function.Injective fds) {c : Channel} {x : Option ChannelId}
    {y : Option (ChannelId × Mask)} (removed : List ChannelId) (hok : PollLoop.Ok fds i c) (hslot : Slot c x y) :
    Inv fds
      { channels := fun j => if j = i then c else s.channels j
        loop :=
          { s.loop with poller := (s.loop.poller.setChannel (fds i) x).setEpoll (fds i) y, removed := removed } } := by
  refine ⟨fun j => ?_, fun j => ?_, fun n hn => ?_, h.pollerPassed, h.loopPassed, h.quiet⟩
  · simp only
    rcases eq_or_ne j i with rfl | hji
    · rw [if_pos rfl]
      exact hok
    · rw [if_neg hji]
      exact h.ok j
  · simp only [EPollPoller.setEpoll, EPollPoller.setChannel]
    rcases eq_or_ne j i with rfl | hji
    · rw [if_pos rfl, if_pos rfl, if_pos rfl]
      exact hslot
    · have hne : fds j ≠ fds i := fun heq => hji (hfds heq)
      rw [if_neg hji, if_neg hne, if_neg hne]
      exact h.slot j
  · simp only [EPollPoller.setEpoll, EPollPoller.setChannel]
    rw [if_neg (Ne.symm (hn i))]
    exact h.known n hn

theorem slot_updated (op : ChannelOp) (c : Channel) :
    Slot { updated op c with index := indexAfter (updated op c) } (some c.id)
      (if indexAfter (updated op c) = kAdded then some (c.id, op.mask c.events) else none) := by
  refine EPollPoller.slot_of_added rfl rfl ?_
  by_cases hafter : (updated op c).index = kAdded ∧ (updated op c).isNoneEvent = true
  · have hdeleted : indexAfter (updated op c) = kDeleted := if_pos hafter
    rw [hdeleted]
    exact .inr ⟨rfl, rfl, hafter.2⟩
  · have hadded : indexAfter (updated op c) = kAdded := if_neg hafter
    rw [hadded]
    exact .inl ⟨rfl, rfl⟩

theorem Inv.perform_update (h : Inv fds s) (hfds : Function.Injective fds) {op : ChannelOp} (hop : op ≠ .remove) :
    Inv fds (s.perform i op) := by
  have hslot := h.slot i
  rw [← (h.ok i).fd] at hslot
  rw [EPollLoop.perform_update hop, EPollPoller.updateChannel_eq op hslot, (h.ok i).fd]
  exact h.set hfds s.loop.removed ((h.ok i).updated op _) (slot_updated op _)

theorem Inv.perform_remove (h : Inv fds s) (hfds : Function.Injective fds) (hadded : (s.channels i).addedToLoop)
    (hnone : (s.channels i).isNoneEvent) : Inv fds (s.perform i .remove) := by
  have hslot := h.slot i
  have hok := h.ok i
  rw [← hok.fd] at hslot
  rw [EPollLoop.perform_remove hnone h.quiet, EPollPoller.removeChannel_eq hslot hadded hnone, hok.fd]
  exact h.set hfds _ ⟨hok.id, hok.fd, hok.events, hok.passed⟩ ⟨rfl, rfl⟩

/-- What an update makes of the channels. -/
theorem Inv.channels_update (h : Inv fds s) {op : ChannelOp} (hop : op ≠ .remove) :
    (s.perform i op).channels j =
      if j = i then { updated op (s.channels i) with index := indexAfter (updated op (s.channels i)) }
      else s.channels j := by
  have hslot := h.slot i
  rw [← (h.ok i).fd] at hslot
  rw [EPollLoop.perform_update hop, EPollPoller.updateChannel_eq op hslot]

/-- A descriptor is in the interest list while its channel has the index `kAdded`. -/
theorem Inv.watched_eq (h : Inv fds s) :
    s.watched (fds i) =
      if (s.channels i).addedToLoop ∧ (s.channels i).index = kAdded then some (s.channels i).events else none := by
  have hslot := h.slot i
  unfold Slot at hslot
  rw [EPollLoop.watched]
  split at hslot
  case isTrue hadded =>
    obtain ⟨-, ⟨hindex, hinterest⟩ | ⟨hindex, hinterest, -⟩⟩ := hslot
    · rw [if_pos ⟨hadded, hindex⟩, hinterest]
      rfl
    · rw [if_neg fun hc => absurd (hindex.symm.trans hc.2) (by decide), hinterest]
      rfl
  case isFalse hadded =>
    rw [if_neg fun hc => hadded hc.1, hslot.2]
    rfl

theorem Inv.watched_of_unknown (h : Inv fds s) {n : Nat} (hn : ∀ i, fds i ≠ n) : s.watched n = none := by
  rw [EPollLoop.watched, h.known n hn]
  rfl

end EPollLoop

namespace PollLoop
open PollPoller (Entry)
variable {fds : ChannelId → Nat} {w w' : ChannelId → Bool} {s : PollLoop} {i j : ChannelId} {n : Nat}

/-- It does not matter what is said of channels that are not registered. -/
theorem Inv.congr (h : Inv fds w s) (hw : ∀ i, (s.channels i).addedToLoop → w i = w' i) : Inv fds w' s :=
  { h with
    entry := fun i hi => by
      obtain ⟨k, pfd, hk, hget, hentry⟩ := h.entry i hi
      exact ⟨k, pfd, hk, hget, hw i hi ▸ hentry⟩ }

/-- An entry with a descriptor is that of a channel that is watched. -/
theorem Inv.entry_of_fd (h : Inv fds w s) {pfd : PollFd} (hmem : pfd ∈ s.poller.pollfds) (hfd : pfd.fd = (n : Int)) :
    ∃ i, fds i = n ∧ (s.channels i).addedToLoop ∧ w i = true ∧ pfd.events.signExtend 32 = (s.channels i).events := by
  obtain ⟨k, hget⟩ := List.mem_iff_getElem?.mp hmem
  obtain ⟨i, hi, -, hentry⟩ := h.entry_of_get hget
  have hentryFd := hentry.fd
  rw [hfd, PollPoller.entryOf, (h.ok i).fd] at hentryFd
  cases hw : w i with
  | true =>
    rw [hw, if_pos rfl] at hentryFd
    exact ⟨i, (Int.ofNat.inj hentryFd).symm, hi, hw, hentry.events⟩
  | false =>
    rw [hw] at hentryFd
    have hneg : (n : Int) = -(fds i : Int) - 1 := hentryFd
    omega

theorem Inv.watched_eq (h : Inv fds w s) (hfds : Function.Injective fds) :
    s.watched (fds i) =
      if (s.channels i).addedToLoop ∧ w i = true then some (s.channels i).events else none := by
  rw [PollLoop.watched]
  cases hfind : s.poller.pollfds.find? fun pfd => pfd.fd = (fds i : Int) with
  | some pfd =>
    have hsome := List.find?_some hfind
    have hfd : pfd.fd = fds i := of_decide_eq_true hsome
    obtain ⟨j, hj, hadded, hw, hevents⟩ := h.entry_of_fd (List.mem_of_find?_eq_some hfind) hfd
    have hji : j = i := hfds hj
    subst hji
    rw [if_pos ⟨hadded, hw⟩, ← hevents]
    rfl
  | none =>
    rw [if_neg]
    · rfl
    · rintro ⟨hadded, hw⟩
      obtain ⟨k, pfd, -, hget, hentry⟩ := h.entry i hadded
      refine List.find?_eq_none.mp hfind pfd (List.mem_of_getElem? hget) (decide_eq_true ?_)
      rw [hentry.fd, PollPoller.entryOf, hw, (h.ok i).fd]
      rfl

theorem channels_update {op : ChannelOp} (hop : op ≠ .remove) :
    ((s.perform i op).channels j).events = (if j = i then updated op (s.channels i) else s.channels j).events ∧
      ((s.perform i op).channels j).addedToLoop =
        (if j = i then updated op (s.channels i) else s.channels j).addedToLoop := by
  rw [perform_update hop]
  rcases eq_or_ne j i with rfl | hji
  · rw [setChannel_self, if_pos rfl]
    exact ⟨rfl, rfl⟩
  · rw [setChannel_of_ne hji, if_neg hji]
    exact ⟨rfl, rfl⟩

theorem Inv.watched_of_unknown (h : Inv fds w s) (hn : ∀ i, fds i ≠ n) : s.watched n = none := by
  rw [PollLoop.watched, Option.map_eq_none_iff, List.find?_eq_none]
  intro pfd hmem hfd
  obtain ⟨i, hi, -⟩ := h.entry_of_fd hmem (of_decide_eq_true hfd)
  exact hn i hi

end PollLoop
namespace PollerPair
open EPollPoller (kNew kAdded kDeleted)
open PollLoop (updated watchedAfter)
variable {fds : ChannelId → Nat} {s : PollerPair} {i : ChannelId} {op : ChannelOp}

/-- The asserts pass with one poller if they pass with the other, and the same descriptors are watched with the same
masks. -/
structure Agree (s : PollerPair) : Prop where
  passed : s.epoll.Passed ↔ s.poll.Passed
  watched : ∀ fd, s.epoll.watched fd = s.poll.watched fd

/-- A channel is removed only when it is registered and has no events. -/
def Allowed (s : PollerPair) (e : ChannelId × ChannelOp) : Prop :=
  e.2 = .remove → (s.poll.channels e.1).addedToLoop ∧ (s.poll.channels e.1).isNoneEvent

/-- A channel is not used after its removal, and one that is disabled is not left without events once more. -/
def Meets (s : PollerPair) (e : ChannelId × ChannelOp) : Prop :=
  e.2 ≠ .remove → e.1 ∉ s.poll.removed ∧
    ((s.epoll.channels e.1).index = kDeleted → e.2.mask (s.epoll.channels e.1).events ≠ 0)

instance (s : PollerPair) (e : ChannelId × ChannelOp) : Decidable (s.Allowed e) :=
  inferInstanceAs (Decidable (_ → _))

instance (s : PollerPair) (e : ChannelId × ChannelOp) : Decidable (s.Meets e) :=
  inferInstanceAs (Decidable (_ → _))

structure Inv (fds : ChannelId → Nat) (s : PollerPair) : Prop where
  epoll : EPollLoop.Inv fds s.epoll
  poll : PollLoop.Inv fds (fun i => (s.epoll.channels i).index = kAdded) s.poll
  events : ∀ i, (s.epoll.channels i).events = (s.poll.channels i).events
  added : ∀ i, (s.epoll.channels i).addedToLoop = (s.poll.channels i).addedToLoop

theorem Inv.new : Inv fds (new fds) := ⟨.new, .new, fun _ => rfl, fun _ => rfl⟩

theorem Inv.agree (h : Inv fds s) (hfds : Function.Injective fds) : s.Agree := by
  refine ⟨iff_of_true h.epoll.passed ⟨h.poll.passed, fun i => (h.poll.ok i).passed⟩, fun fd => ?_⟩
  by_cases hfd : ∃ i, fds i = fd
  · obtain ⟨i, rfl⟩ := hfd
    rw [h.epoll.watched_eq, h.poll.watched_eq hfds, h.events, h.added]
    simp only [decide_eq_true_eq]
  · have hn : ∀ i, fds i ≠ fd := fun i hi => hfd ⟨i, hi⟩
    rw [h.epoll.watched_of_unknown hn, h.poll.watched_of_unknown hn]

/-- An update that meets the condition leaves a channel watched by both pollers or by neither. -/
theorem Inv.watchedAfter_eq (h : Inv fds s) (hop : op ≠ .remove) (hmeets : s.Meets (i, op)) :
    watchedAfter op (s.poll.channels i) =
      decide (EPollPoller.indexAfter (updated op (s.epoll.channels i)) = kAdded) := by
  obtain ⟨hremoved, hdisabled⟩ := hmeets hop
  have hevents : (updated op (s.poll.channels i)).isNoneEvent = (updated op (s.epoll.channels i)).isNoneEvent := by
    simp only [Channel.isNoneEvent, updated, h.events]
  rw [watchedAfter, hevents]
  have hslot := h.epoll.slot i
  unfold EPollPoller.Slot at hslot
  split at hslot
  case isTrue hadded =>
    rw [h.added] at hadded
    obtain ⟨k, -, hk, -⟩ := h.poll.entry i hadded
    rw [decide_eq_false (by omega), Bool.false_or]
    obtain ⟨-, ⟨hindex, -⟩ | ⟨hindex, -, -⟩⟩ := hslot
    · have hadded : (updated op (s.epoll.channels i)).index = kAdded := hindex
      rw [EPollPoller.indexAfter_of_added hadded]
      cases (updated op (s.epoll.channels i)).isNoneEvent <;> rfl
    · have hne : (updated op (s.epoll.channels i)).index ≠ kAdded := fun hc => absurd (hindex.symm.trans hc) (by decide)
      have hnone : (updated op (s.epoll.channels i)).isNoneEvent = false := beq_false_of_ne (hdisabled hindex)
      rw [EPollPoller.indexAfter_of_ne hne, hnone]
      rfl
  case isFalse hadded =>
    rw [h.added, Bool.not_eq_true] at hadded
    have hne : (updated op (s.epoll.channels i)).index ≠ kAdded := fun hc =>
      absurd (hslot.1.symm.trans hc) (by decide)
    rw [decide_eq_true (h.poll.fresh i hadded hremoved), Bool.true_or, EPollPoller.indexAfter_of_ne hne]
    rfl

theorem Inv.perform_update (h : Inv fds s) (hfds : Function.Injective fds) (hop : op ≠ .remove)
    (hmeets : s.Meets (i, op)) : Inv fds (s.perform i op) := by
  have hepoll : ∀ j, (s.perform i op).epoll.channels j = _ := fun j => h.epoll.channels_update hop
  have hpoll := fun j => PollLoop.channels_update (s := s.poll) (i := i) (j := j) hop
  refine ⟨h.epoll.perform_update hfds hop, ?_, fun j => ?_, fun j => ?_⟩
  · refine (h.poll.perform_update hfds hop (hmeets hop).1).congr fun j _ => ?_
    rw [hepoll]
    rcases eq_or_ne j i with rfl | hji
    · rw [Function.update_self, h.watchedAfter_eq hop hmeets, if_pos rfl]
    · rw [Function.update_of_ne hji, if_neg hji]
  · rw [hepoll]
    refine Eq.trans ?_ (hpoll j).1.symm
    split
    · simp only [updated, h.events]
    · exact h.events j
  · rw [hepoll]
    refine Eq.trans ?_ (hpoll j).2.symm
    split
    · rfl
    · exact h.added j

theorem Inv.perform_remove (h : Inv fds s) (hfds : Function.Injective fds) (hallowed : s.Allowed (i, .remove)) :
    Inv fds (s.perform i .remove) := by
  obtain ⟨hadded, hnone⟩ := hallowed rfl
  have hadded' : (s.epoll.channels i).addedToLoop := (h.added i).trans hadded
  have hnone' : (s.epoll.channels i).isNoneEvent := by rwa [Channel.isNoneEvent, h.events]
  obtain ⟨m, k, hk, hm, hlast, herased⟩ := h.poll.perform_remove hfds hadded hnone
  have hepoll : ∀ j, j ≠ i → (s.epoll.perform i .remove).channels j = s.epoll.channels j := fun j hji => by
    rw [EPollLoop.perform_remove hnone' h.epoll.quiet]
    exact if_neg hji
  have hself : ((s.epoll.perform i .remove).channels i).events = (s.epoll.channels i).events ∧
      ((s.epoll.perform i .remove).channels i).addedToLoop = false := by
    rw [EPollLoop.perform_remove hnone' h.epoll.quiet]
    simp only [if_true, and_self]
  refine ⟨h.epoll.perform_remove hfds hadded' hnone', ?_, fun j => ?_, fun j => ?_⟩
  · simp only [perform, herased]
    refine (h.poll.remove hadded hk hm hlast hfds).congr fun j hj => ?_
    rw [PollLoop.erased_channels] at hj
    have hji : j ≠ i := fun hji => by
      rw [if_pos hji] at hj
      cases hj
    rw [hepoll j hji]
  · simp only [perform, herased, PollLoop.erased_channels]
    rcases eq_or_ne j i with rfl | hji
    · rw [hself.1, h.events]
    · rw [hepoll j hji, h.events]
  · simp only [perform, herased, PollLoop.erased_channels]
    rcases eq_or_ne j i with rfl | hji
    · rw [hself.2, if_pos rfl]
    · rw [hepoll j hji, if_neg hji, h.added]

theorem Inv.perform (h : Inv fds s) (hfds : Function.Injective fds) {e : ChannelId × ChannelOp} (hallowed : s.Allowed e)
    (hmeets : s.Meets e) : Inv fds (s.perform e.1 e.2) := by
  obtain ⟨i, op⟩ := e
  by_cases hop : op = .remove
  · subst hop
    exact h.perform_remove hfds hallowed
  · exact h.perform_update hfds hop hmeets

/-! ## Where they differ -/

/-- `PollPoller` looks for a channel that is not in its map. -/
theorem Inv.not_agree_of_removed (h : Inv fds s) (hfds : Function.Injective fds) (hop : op ≠ .remove)
    (hremoved : i ∈ s.poll.removed) : ¬(s.perform i op).Agree := by
  intro hagree
  have hpassed := (hagree.passed.mp (h.epoll.perform_update hfds hop).passed).1
  obtain ⟨hadded, hindex⟩ := h.poll.gone i hremoved
  have hnone : s.poll.poller.channels.lookup (updated op (s.poll.channels i)).fd = none := by
    rw [show (updated op (s.poll.channels i)).fd = fds i from (h.poll.ok i).fd, h.poll.lookup_eq_none hfds hadded]
  simp only [PollerPair.perform, PollLoop.perform_update hop] at hpassed
  have hindex' : 0 ≤ (updated op (s.poll.channels i)).index := hindex
  exact PollPoller.failed_of_unknown hindex' hnone hpassed

/-- `EPollPoller` adds the descriptor back, without events. -/
theorem Inv.not_agree_of_disabled (h : Inv fds s) (hfds : Function.Injective fds) (hop : op ≠ .remove)
    (hremoved : i ∉ s.poll.removed) (hindex : (s.epoll.channels i).index = kDeleted)
    (hzero : op.mask (s.epoll.channels i).events = 0) : ¬(s.perform i op).Agree := by
  intro hagree
  have hwatched := hagree.watched (fds i)
  have hadded : (s.poll.channels i).addedToLoop := by
    by_contra hadded
    have hslot := h.epoll.slot i
    rw [EPollPoller.Slot, h.added, if_neg hadded, hindex] at hslot
    exact absurd hslot.1 (by decide)
  obtain ⟨k, -, hk, -⟩ := h.poll.entry i hadded
  have hnone : (updated op (s.poll.channels i)).isNoneEvent = true := by
    rw [Channel.isNoneEvent, beq_iff_eq]
    simp only [updated, ← h.events, hzero]
    rfl
  have hunwatched : watchedAfter op (s.poll.channels i) = false := by
    rw [watchedAfter, hnone, decide_eq_false (by omega)]
    rfl
  have hne : (updated op (s.epoll.channels i)).index ≠ kAdded := fun hc => absurd (hindex.symm.trans hc) (by decide)
  have hepoll : (s.perform i op).epoll.watched (fds i) ≠ none := by
    simp only [PollerPair.perform]
    rw [(h.epoll.perform_update hfds hop).watched_eq, h.epoll.channels_update hop, if_pos rfl,
      EPollPoller.indexAfter_of_ne hne, if_pos ⟨rfl, rfl⟩]
    exact Option.some_ne_none _
  have hpoll : (s.perform i op).poll.watched (fds i) = none := by
    simp only [PollerPair.perform]
    rw [(h.poll.perform_update hfds hop hremoved).watched_eq hfds, Function.update_self, hunwatched]
    exact if_neg fun hc => Bool.false_ne_true hc.2
  exact hepoll (hwatched.trans hpoll)

/-- An operation after which the pollers agree meets the condition. -/
theorem Inv.meets_of_agree (h : Inv fds s) (hfds : Function.Injective fds) {e : ChannelId × ChannelOp}
    (hagree : (s.perform e.1 e.2).Agree) : s.Meets e := by
  intro hop
  have hremoved : e.1 ∉ s.poll.removed := fun hremoved => h.not_agree_of_removed hfds hop hremoved hagree
  exact ⟨hremoved, fun hindex hzero => h.not_agree_of_disabled hfds hop hremoved hindex hzero hagree⟩

/-- However channels with distinct descriptors are used, the two pollers agree after every operation exactly if each
one meets the condition; then no assert fails with either. -/
theorem pollers_agree (hfds : Function.Injective fds) (ops : List (ChannelId × ChannelOp)) (s : PollerPair) :
    (system.Run (fun s e => s.Allowed e ∧ (s.perform e.1 e.2).Agree) (new fds) ops s ↔
      system.Run (fun s e => s.Allowed e ∧ s.Meets e) (new fds) ops s) ∧
    (system.Run (fun s e => s.Allowed e ∧ s.Meets e) (new fds) ops s → s.epoll.Passed ∧ s.poll.Passed) := by
  have hkeep : ∀ {s t e}, Inv fds s → s.Allowed e ∧ s.Meets e → system.step s e = some t → Inv fds t :=
    fun h hc hstep => by
      cases hstep
      exact h.perform hfds hc.1 hc.2
  have hsame : ∀ {s : PollerPair} {e}, Inv fds s →
      (s.Allowed e ∧ s.Meets e ↔ s.Allowed e ∧ (s.perform e.1 e.2).Agree) := fun h =>
    and_congr_right fun hallowed =>
      ⟨fun hmeets => (h.perform hfds hallowed hmeets).agree hfds, h.meets_of_agree hfds⟩
  refine ⟨(Stepper.Run.congr_of_invariant hkeep hsame Inv.new).symm, fun run => ?_⟩
  have h : Inv fds s := run.invariant hkeep Inv.new
  exact ⟨h.epoll.passed, h.poll.passed, fun i => (h.poll.ok i).passed⟩

/-- A channel without events from the start, and one that is disabled, enabled again and removed. -/
theorem pollers_agree_reenabled :
    ∃ fds, Function.Injective fds ∧ ∃ s,
      system.Run (fun s e => s.Allowed e ∧ (s.perform e.1 e.2).Agree) (new fds)
        [(.connection 0, .disableWriting), (.connection 1, .enableReading), (.connection 0, .disableAll),
          (.connection 1, .disableAll), (.connection 1, .enableWriting), (.connection 1, .disableWriting),
          (.connection 1, .remove)] s ∧
      s.epoll.Passed ∧ s.poll.Passed := by
  obtain ⟨s, hrun, -⟩ : ∃ s, system.Run (fun s e => s.Allowed e ∧ s.Meets e) (new ChannelId.number)
      [(.connection 0, .disableWriting), (.connection 1, .enableReading), (.connection 0, .disableAll),
        (.connection 1, .disableAll), (.connection 1, .enableWriting), (.connection 1, .disableWriting),
        (.connection 1, .remove)] s ∧ True := Stepper.Run.replay rfl fun _ => trivial
  obtain ⟨hagree, hpassed⟩ := pollers_agree ChannelId.number_injective _ s
  exact ⟨ChannelId.number, ChannelId.number_injective, s, hagree.mpr hrun, hpassed hrun⟩

/-- A channel is disabled twice: its descriptor is watched by `epoll` again, and not by `poll`. Another is enabled
again after its removal: an assert of `PollPoller` fails. -/
theorem pollers_differ :
    ∃ fds, Function.Injective fds ∧
      (∃ s, system.Run (fun s e => s.Allowed e) (new fds)
          [(.connection 0, .enableReading), (.connection 0, .disableAll), (.connection 0, .disableAll)] s ∧
        s.epoll.watched (fds (.connection 0)) = some 0 ∧ s.poll.watched (fds (.connection 0)) = none) ∧
      ∃ s, system.Run (fun s e => s.Allowed e) (new fds)
          [(.connection 0, .enableReading), (.connection 0, .disableAll), (.connection 0, .remove),
            (.connection 0, .enableReading)] s ∧
        s.epoll.loop.poller.failed = [] ∧ s.poll.poller.failed ≠ [] := by
  refine ⟨ChannelId.number, ChannelId.number_injective, Stepper.Run.replay rfl fun _ => ⟨rfl, rfl⟩,
    Stepper.Run.replay rfl fun _ => ⟨rfl, ?_⟩⟩
  exact List.cons_ne_nil _ _

end PollerPair
end Muduo
