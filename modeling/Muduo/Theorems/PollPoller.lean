import Mathlib.Data.Nat.Pairing
import Mathlib.Logic.Function.Basic
import Mathlib.Tactic.IntervalCases
import Muduo.Lib.Threads
import Muduo.PollPoller

/-! # The entries of the poller

Each registered channel has an entry of `pollfds_` at its index, and each entry is that of a channel. The descriptor
in the entry tells which one, so the index of the entry that is moved can be set right. -/

namespace Muduo
open Lib

namespace ChannelId

/-- Distinct descriptors for all channels. -/
def number : ChannelId → Nat
  | connection i => 2 * i
  | connector k n => 2 * Nat.pair k n + 1

theorem number_injective : Function.Injective number := by
  rintro (i | ⟨k, n⟩) (j | ⟨k', n'⟩) h
  · exact congrArg connection (Nat.eq_of_mul_eq_mul_left (by decide) h)
  · simp only [number] at h
    omega
  · simp only [number] at h
    omega
  · have hpair : Nat.pair k n = Nat.pair k' n' := Nat.eq_of_mul_eq_mul_left (by decide) (Nat.succ.inj h)
    obtain ⟨rfl, rfl⟩ := Nat.pair_eq_pair.mp hpair
    rfl

end ChannelId

namespace PollPoller
variable {p : PollPoller} {c : Channel} {a : PollAssert} {k : Nat} {pfd : PollFd}

theorem check_of {q : Prop} [Decidable q] (h : q) : p.check a (decide q) = p := by
  simp [check, h]

theorem check_true {b : Bool} (h : b = true) : p.check a b = p := by
  rw [check, if_pos h]

/-- An assert about the entry of a channel. -/
theorem check_any {q : PollFd → Prop} [DecidablePred q] {o : Option PollFd} (ho : o = some pfd) (h : q pfd) :
    p.check a (o.any fun pfd => decide (q pfd)) = p := by
  simp [check, ho, h]

theorem toNat_fdOf {n : Nat} {fd : Int} (h : fd = n ∨ fd = -(n : Int) - 1) : (fdOf fd).toNat = n := by
  unfold fdOf
  split <;> omega

/-- What is written into the entry of a channel; the descriptor is negated if the channel is not watched. -/
def entryOf (c : Channel) (watched : Bool) : PollFd :=
  { fd := if watched then c.fd else -(c.fd : Int) - 1, events := c.events.setWidth 16, revents := 0 }

/-- The entry of a channel, up to what `poll` has written into it. -/
structure Entry (c : Channel) (watched : Bool) (pfd : PollFd) : Prop where
  fd : pfd.fd = (entryOf c watched).fd
  events : pfd.events.signExtend 32 = c.events

theorem Entry.cases_fd {watched : Bool} (h : Entry c watched pfd) : pfd.fd = c.fd ∨ pfd.fd = -(c.fd : Int) - 1 := by
  rw [h.fd, entryOf]
  cases watched with
  | true => exact .inl rfl
  | false => exact .inr rfl

theorem updateChannel_new (hindex : c.index < 0) (hnone : p.channels.lookup c.fd = none) :
    p.updateChannel c =
      ({ p with pollfds := p.pollfds ++ [entryOf c true], channels := p.channels.insert c.fd c.id },
        (p.pollfds.length : Int)) := by
  have hlen : ((p.pollfds ++ [entryOf c true]).length : Int) - 1 = p.pollfds.length := by
    rw [List.length_append, List.length_singleton]
    omega
  rw [updateChannel, if_pos hindex, check_true (by rw [hnone]; rfl), ← hlen]
  rfl

theorem updateChannel_old (hindex : c.index = k) (hsome : p.channels.lookup c.fd = some c.id)
    (hget : p.pollfds[k]? = some pfd) (hfd : pfd.fd = c.fd ∨ pfd.fd = -(c.fd : Int) - 1) :
    p.updateChannel c = ({ p with pollfds := p.pollfds.set k (entryOf c !c.isNoneEvent) }, (k : Int)) := by
  have hk : k < p.pollfds.length := (List.getElem?_eq_some_iff.mp hget).1
  have hentry : entryOf c (!c.isNoneEvent) =
      { fd := if c.isNoneEvent then -(c.fd : Int) - 1 else c.fd, events := c.events.setWidth 16, revents := 0 } := by
    cases hnone : c.isNoneEvent <;> simp [entryOf]
  have hcontains : (p.channels.lookup c.fd).isSome = true := by rw [hsome]; rfl
  have hnew : ¬(k : Int) < 0 := by omega
  have hcheck : p.check .updateFd
      (p.pollfds[k]?.any fun pfd => pfd.fd = (c.fd : Int) ∨ pfd.fd = -(c.fd : Int) - 1) = p := check_any hget hfd
  simp only [updateChannel, hindex, if_neg hnew, check_true hcontains, check_of hsome, Int.toNat_natCast,
    check_of (And.intro (Int.natCast_nonneg k) hk), hcheck, hentry]

theorem removeChannel_eq {watched : Bool} (hindex : c.index = k) (hsome : p.channels.lookup c.fd = some c.id)
    (hnone : c.isNoneEvent) (hget : p.pollfds[k]? = some pfd) (hentry : Entry c watched pfd) :
    p.removeChannel c = p.eraseChannel c := by
  have hk : k < p.pollfds.length := (List.getElem?_eq_some_iff.mp hget).1
  have hcontains : (p.channels.lookup c.fd).isSome = true := by rw [hsome]; rfl
  rw [removeChannel, check_true hcontains, check_of hsome, check_true hnone, hindex, Int.toNat_natCast,
    check_of ⟨Int.natCast_nonneg k, hk⟩, check_any hget ⟨hentry.cases_fd.symm, hentry.events⟩, check_true hcontains]

theorem eraseChannel_last (hindex : c.index = k) (hlast : k = p.pollfds.length - 1) :
    p.eraseChannel c = ({ p with channels := p.channels.erase c.fd, pollfds := p.pollfds.dropLast }, none) := by
  rw [eraseChannel, hindex, Int.toNat_natCast]
  simp only [if_pos hlast]

theorem eraseChannel_moved (hindex : c.index = k) (hlast : k ≠ p.pollfds.length - 1) {last : PollFd}
    {moved : ChannelId} (hget : p.pollfds[p.pollfds.length - 1]? = some last)
    (hmoved : (p.channels.erase c.fd).lookup (fdOf last.fd).toNat = some moved) :
    p.eraseChannel c =
      ({ p with
          channels := p.channels.erase c.fd
          pollfds := (iterSwap p.pollfds k (p.pollfds.length - 1)).dropLast }, some (moved, (k : Int))) := by
  rw [← List.getLast?_eq_getElem?] at hget
  rw [eraseChannel, hindex, Int.toNat_natCast]
  simp only [if_neg hlast, hget, hmoved]

/-- `poll` has reported events for the entry. -/
def Reported (pfd : PollFd) : Bool := 0 < pfd.revents.toInt

/-- With the number of entries that have events, every one of them is found, and nothing else. -/
theorem fillActive_eq {channels : AList fun _ : Nat => ChannelId} {own : PollFd → ChannelId} {l : List PollFd}
    (hown : ∀ pfd ∈ l, channels.lookup (fdOf pfd.fd).toNat = some (own pfd)) :
    fillActive channels (l.countP Reported) l =
      .ok ((l.filter Reported).map fun pfd => (own pfd, pfd.revents.signExtend 32)) := by
  induction l with
  | nil => rfl
  | cons pfd l ih =>
    have ih := ih fun pfd hpfd => hown pfd (List.mem_cons_of_mem _ hpfd)
    cases hpos : Reported pfd with
    | true =>
      have hlt : 0 < pfd.revents.toInt := of_decide_eq_true hpos
      have hcount : ((l.countP Reported + 1 : Nat) : Int) - 1 = l.countP Reported := by omega
      rw [List.countP_cons_of_pos hpos, List.filter_cons_of_pos hpos, fillActive, if_neg (by omega),
        if_neg (Int.not_le.mpr hlt), hown pfd List.mem_cons_self, hcount, ih]
      rfl
    | false =>
      have hle : pfd.revents.toInt ≤ 0 := Int.not_lt.mp (of_decide_eq_false hpos)
      have hneg : ¬Reported pfd = true := by rw [hpos]; exact Bool.false_ne_true
      rw [List.countP_cons_of_neg hneg, List.filter_cons_of_neg hneg, fillActive, if_pos hle, ih]
      split
      · have hnil : l.filter Reported = [] := by
          rw [← List.length_eq_zero_iff, ← List.countP_eq_length_filter]
          omega
        rw [hnil]
        rfl
      · rfl

end PollPoller

namespace PollLoop
open PollPoller (Entry entryOf toNat_fdOf)
variable {fds : ChannelId → Nat} {w : ChannelId → Bool} {s : PollLoop} {i j : ChannelId} {k : Nat} {pfd : PollFd}

@[simp] theorem setChannel_self {f : Channel → Channel} : (s.setChannel i f).channels i = f (s.channels i) := if_pos rfl

theorem setChannel_of_ne {f : Channel → Channel} (h : j ≠ i) : (s.setChannel i f).channels j = s.channels j := if_neg h

/-- Only what becomes of that channel matters. -/
theorem setChannel_congr {f g : Channel → Channel} (h : f (s.channels i) = g (s.channels i)) :
    s.setChannel i f = s.setChannel i g := by
  simp only [setChannel]
  congr 1
  funext j
  split
  · rename_i hj
    rw [hj, h]
  · rfl

theorem setChannel_eq_self {f : Channel → Channel} (h : f (s.channels i) = s.channels i) : s.setChannel i f = s := by
  simp only [setChannel]
  congr 1
  funext j
  split
  · rename_i hj
    rw [hj, h]
  · rfl

/-- What the operations never change, and the masks, which are made of the three flags of the class. -/
structure Ok (fds : ChannelId → Nat) (i : ChannelId) (c : Channel) : Prop where
  id : c.id = i
  fd : c.fd = fds i
  events : c.events.toNat < 8
  passed : c.failed = []

/-- The channels and the entries that they have; `w` says whose descriptors are not negated. -/
structure Inv (fds : ChannelId → Nat) (w : ChannelId → Bool) (s : PollLoop) : Prop where
  ok : ∀ i, Ok fds i (s.channels i)
  registered : ∀ n i, s.poller.channels.lookup n = some i ↔ fds i = n ∧ (s.channels i).addedToLoop
  fresh : ∀ i, (s.channels i).addedToLoop = false → i ∉ s.removed → (s.channels i).index < 0
  gone : ∀ i ∈ s.removed, (s.channels i).addedToLoop = false ∧ 0 ≤ (s.channels i).index
  entry : ∀ i, (s.channels i).addedToLoop → ∃ (k : Nat) (pfd : PollFd), (s.channels i).index = k ∧
    s.poller.pollfds[k]? = some pfd ∧ Entry (s.channels i) (w i) pfd
  owner : ∀ (k : Nat) pfd, s.poller.pollfds[k]? = some pfd → ∃ i, (s.channels i).addedToLoop ∧ (s.channels i).index = (k : Int)
  size : s.poller.channels.keys.length = s.poller.pollfds.length
  passed : s.poller.failed = []

theorem mask_lt (op : ChannelOp) {e : Mask} (h : e.toNat < 8) : (op.mask e).toNat < 8 := by
  have hand : ∀ m : Mask, (e &&& m).toNat < 8 := fun m => by
    rw [BitVec.toNat_and]
    exact Nat.lt_of_le_of_lt Nat.and_le_left h
  have hor : ∀ m : Mask, m.toNat < 8 → (e ||| m).toNat < 8 := fun m hm => by
    rw [BitVec.toNat_or]
    exact Nat.or_lt_two_pow (n := 3) h hm
  cases op with
  | enableReading => exact hor _ (by decide)
  | disableReading => exact hand _
  | enableWriting => exact hor _ (by decide)
  | disableWriting => exact hand _
  | disableAll => exact Nat.zero_lt_succ 7
  | remove => exact h

/-- The masks fit into the `short` of an entry. -/
theorem signExtend_setWidth {e : Mask} (h : e.toNat < 8) : (e.setWidth 16).signExtend 32 = e := by
  obtain ⟨n, hn⟩ : ∃ n, e.toNat = n := ⟨_, rfl⟩
  have he : e = BitVec.ofNat 32 n := by rw [← hn, BitVec.ofNat_toNat, BitVec.setWidth_eq]
  rw [hn] at h
  subst he
  interval_cases n <;> decide

theorem Inv.new : Inv fds w (new fds) where
  ok i := ⟨rfl, rfl, Nat.zero_lt_succ 7, rfl⟩
  registered n i := ⟨fun h => (by cases h), fun h => (by cases h.2)⟩
  fresh i _ _ := Int.negSucc_lt_zero 0
  gone i h := absurd h List.not_mem_nil
  entry i h := by cases h
  owner k pfd h := by cases h
  size := rfl
  passed := rfl

theorem ne_of_added (hi : (s.channels i).addedToLoop = false) (hj : (s.channels j).addedToLoop) : i ≠ j := fun hij => by
  rw [← hij, hi] at hj
  cases hj

theorem Inv.lookup_eq_some (h : Inv fds w s) (hi : (s.channels i).addedToLoop) :
    s.poller.channels.lookup (s.channels i).fd = some (s.channels i).id := by
  rw [(h.ok i).id, (h.ok i).fd, h.registered]
  exact ⟨rfl, hi⟩

theorem Inv.lookup_eq_none (h : Inv fds w s) (hfds : Function.Injective fds) (hi : (s.channels i).addedToLoop = false) :
    s.poller.channels.lookup (fds i) = none := by
  refine Option.eq_none_iff_forall_ne_some.mpr fun j hj => ?_
  obtain ⟨hfd, hadded⟩ := (h.registered _ j).mp hj
  rw [hfds hfd, hi] at hadded
  cases hadded

/-- The descriptor in an entry is that of one channel only. -/
theorem Inv.index_inj (h : Inv fds w s) (hfds : Function.Injective fds) (hi : (s.channels i).addedToLoop)
    (hj : (s.channels j).addedToLoop) (hindex : (s.channels i).index = (s.channels j).index) : i = j := by
  obtain ⟨k, pfd, hk, hget, hentry⟩ := h.entry i hi
  obtain ⟨k', pfd', hk', hget', hentry'⟩ := h.entry j hj
  have hkk : k = k' := Int.ofNat.inj (hk.symm.trans (hindex.trans hk'))
  rw [hkk, hget'] at hget
  cases hget
  refine hfds ?_
  rw [← (h.ok i).fd, ← (h.ok j).fd, ← toNat_fdOf hentry.cases_fd, ← toNat_fdOf hentry'.cases_fd]

theorem Inv.index_lt (h : Inv fds w s) (hi : (s.channels i).addedToLoop) (hk : (s.channels i).index = k) :
    k < s.poller.pollfds.length := by
  obtain ⟨k', pfd, hk', hget, -⟩ := h.entry i hi
  have hkk : k = k' := Int.ofNat.inj (hk.symm.trans hk')
  rw [hkk]
  exact (List.getElem?_eq_some_iff.mp hget).1

/-! ## Updates -/

/-- The channel that an operation hands to `updateChannel`. -/
def updated (op : ChannelOp) (c : Channel) : Channel := { c with events := op.mask c.events, addedToLoop := true }

theorem perform_update {op : ChannelOp} (hop : op ≠ .remove) :
    s.perform i op =
      ({ s with poller := (s.poller.updateChannel (updated op (s.channels i))).1 } : PollLoop).setChannel i fun c =>
        { updated op c with index := (s.poller.updateChannel (updated op (s.channels i))).2 } := by
  have hall : s.perform i op = (s.setChannel i fun c => { c with events := op.mask c.events }).update i := by
    cases op with
    | remove => exact absurd rfl hop
    | _ => rfl
  rw [hall]
  simp only [update, setChannel, if_pos, updated]
  congr 1
  funext j
  split
  · rename_i hj
    rw [hj]
  · rfl

theorem Ok.updated {c : Channel} (h : Ok fds i c) (op : ChannelOp) (index : Int) :
    Ok fds i { updated op c with index := index } :=
  ⟨h.id, h.fd, mask_lt op h.events, h.passed⟩

theorem entry_updated {c : Channel} (h : c.events.toNat < 8) (op : ChannelOp) (index : Int) (watched : Bool) :
    Entry { updated op c with index := index } watched (entryOf (updated op c) watched) :=
  ⟨rfl, signExtend_setWidth (mask_lt op h)⟩

theorem lookup_insert_eq_some {l : AList fun _ : Nat => ChannelId} {n m : Nat} :
    (l.insert m i).lookup n = some j ↔ n = m ∧ j = i ∨ n ≠ m ∧ l.lookup n = some j := by
  rcases eq_or_ne n m with rfl | hne
  · rw [AList.lookup_insert, Option.some.injEq, eq_comm]
    simp
  · rw [AList.lookup_insert_ne hne]
    simp [hne]

/-- The channel `i` is updated and has the entry at `k` afterwards; the entries of the other channels stay. -/
theorem Inv.of_update (h : Inv fds w s) (op : ChannelOp) (watched : Bool) {p : PollPoller} (hremoved : i ∉ s.removed)
    (hregistered : ∀ n j, p.channels.lookup n = some j ↔ fds j = n ∧ (j = i ∨ (s.channels j).addedToLoop))
    (hself : p.pollfds[k]? = some (entryOf (updated op (s.channels i)) watched))
    (hothers : ∀ {j} {n : Nat} {pfd}, j ≠ i → (s.channels j).addedToLoop → (s.channels j).index = n →
      s.poller.pollfds[n]? = some pfd → p.pollfds[n]? = some pfd)
    (howner : ∀ {n : Nat} {pfd}, n ≠ k → p.pollfds[n]? = some pfd →
      ∃ j, j ≠ i ∧ (s.channels j).addedToLoop ∧ (s.channels j).index = n)
    (hsize : p.channels.keys.length = p.pollfds.length) (hpassed : p.failed = []) :
    Inv fds (Function.update w i watched)
      (({ s with poller := p } : PollLoop).setChannel i fun c => { updated op c with index := k }) := by
  refine ⟨fun j => ?_, fun n j => (hregistered n j).trans ?_, fun j hj hrem => ?_, fun j hj => ?_, fun j hj => ?_,
    fun n pfd hget => ?_, hsize, hpassed⟩
  · rcases eq_or_ne j i with rfl | hji
    · rw [setChannel_self]
      exact (h.ok j).updated op _
    · rw [setChannel_of_ne hji]
      exact h.ok j
  · rcases eq_or_ne j i with rfl | hji
    · rw [setChannel_self]
      exact ⟨fun hreg => ⟨hreg.1, rfl⟩, fun hreg => ⟨hreg.1, .inl rfl⟩⟩
    · rw [setChannel_of_ne hji, or_iff_right hji]
  · rcases eq_or_ne j i with rfl | hji
    · rw [setChannel_self] at hj
      cases hj
    · rw [setChannel_of_ne hji] at hj ⊢
      exact h.fresh j hj hrem
  · rcases eq_or_ne j i with rfl | hji
    · exact absurd hj hremoved
    · rw [setChannel_of_ne hji]
      exact h.gone j hj
  · rcases eq_or_ne j i with rfl | hji
    · rw [setChannel_self, Function.update_self]
      exact ⟨k, _, rfl, hself, entry_updated (h.ok j).events op _ watched⟩
    · rw [setChannel_of_ne hji] at hj ⊢
      rw [Function.update_of_ne hji]
      obtain ⟨n, pfd, hn, hget, hentry⟩ := h.entry j hj
      exact ⟨n, pfd, hn, hothers hji hj hn hget, hentry⟩
  · rcases eq_or_ne n k with rfl | hnk
    · refine ⟨i, ?_⟩
      rw [setChannel_self]
      exact ⟨rfl, rfl⟩
    · obtain ⟨j, hji, hj, hindex⟩ := howner hnk hget
      refine ⟨j, ?_⟩
      rw [setChannel_of_ne hji]
      exact ⟨hj, hindex⟩

/-- A channel is updated for the first time. -/
theorem Inv.update_new (h : Inv fds w s) (hfds : Function.Injective fds) (op : ChannelOp)
    (hi : (s.channels i).addedToLoop = false) (hremoved : i ∉ s.removed) :
    Inv fds (Function.update w i true)
      (({ s with
          poller :=
            { s.poller with
              pollfds := s.poller.pollfds ++ [entryOf (updated op (s.channels i)) true]
              channels := s.poller.channels.insert (fds i) i } } : PollLoop).setChannel i fun c =>
        { updated op c with index := s.poller.pollfds.length }) := by
  have hnone : fds i ∉ s.poller.channels := AList.lookup_eq_none.mp (h.lookup_eq_none hfds hi)
  refine h.of_update op true hremoved (fun n j => lookup_insert_eq_some.trans ?_) List.getElem?_concat_length
    (fun _ _ _ hget => getElem?_concat_eq_some.mpr (.inl hget)) (fun hnk hget => ?_) ?_ h.passed
  · rw [h.registered]
    constructor
    · rintro (⟨hn, hji⟩ | ⟨-, hfd, hj⟩)
      · exact ⟨by rw [hji, hn], .inl hji⟩
      · exact ⟨hfd, .inr hj⟩
    · rintro ⟨hfd, hj⟩
      rcases eq_or_ne j i with rfl | hji
      · exact .inl ⟨hfd.symm, rfl⟩
      · exact .inr ⟨fun hn => hji (hfds (hfd.trans hn)), hfd, hj.resolve_left hji⟩
  · rcases getElem?_concat_eq_some.mp hget with hget | ⟨hk, -⟩
    · obtain ⟨j, hj, hindex⟩ := h.owner _ _ hget
      exact ⟨j, (ne_of_added hi hj).symm, hj, hindex⟩
    · exact absurd hk hnk
  · have hkeys : (s.poller.channels.insert (fds i) i).keys.length =
        (s.poller.pollfds ++ [entryOf (updated op (s.channels i)) true]).length := by
      rw [AList.keys_insert, List.length_cons, List.erase_of_not_mem hnone, h.size, List.length_append,
        List.length_singleton]
    exact hkeys

/-- A registered channel is updated. -/
theorem Inv.update_old (h : Inv fds w s) (hfds : Function.Injective fds) (op : ChannelOp) (watched : Bool)
    (hi : (s.channels i).addedToLoop) (hk : (s.channels i).index = k) :
    Inv fds (Function.update w i watched)
      (({ s with
          poller :=
            { s.poller with
              pollfds := s.poller.pollfds.set k (entryOf (updated op (s.channels i)) watched) } } :
          PollLoop).setChannel i fun c => { updated op c with index := k }) := by
  have hremoved : i ∉ s.removed := fun hmem => by
    have hgone := (h.gone i hmem).1
    rw [hi] at hgone
    cases hgone
  refine h.of_update op watched hremoved (fun n j => (h.registered n j).trans ?_)
    (List.getElem?_set_self (h.index_lt hi hk)) (fun hji hj hn hget => ?_) (fun hnk hget => ?_)
    (h.size.trans List.length_set.symm) h.passed
  · refine and_congr_right fun _ => ⟨.inr, ?_⟩
    rintro (rfl | hj)
    · exact hi
    · exact hj
  · -- The index of another channel is that of another entry.
    have hne : k ≠ _ := fun hkn => hji (h.index_inj hfds hj hi (by rw [hk, hn, hkn]))
    exact (List.getElem?_set_ne hne).trans hget
  · obtain ⟨j, hj, hindex⟩ := h.owner _ _ ((List.getElem?_set_ne hnk.symm).symm.trans hget)
    refine ⟨j, fun hji => ?_, hj, hindex⟩
    rw [hji, hk] at hindex
    exact hnk (Int.ofNat.inj hindex).symm

/-- Whether the entry of a channel has its descriptor after an operation: the first update does not look at the mask. -/
def watchedAfter (op : ChannelOp) (c : Channel) : Bool := c.index < 0 || !(updated op c).isNoneEvent

theorem Inv.perform_update (h : Inv fds w s) (hfds : Function.Injective fds) {op : ChannelOp} (hop : op ≠ .remove)
    (hremoved : i ∉ s.removed) : Inv fds (Function.update w i (watchedAfter op (s.channels i))) (s.perform i op) := by
  rw [PollLoop.perform_update hop]
  cases hi : (s.channels i).addedToLoop with
  | false =>
    have hindex : (updated op (s.channels i)).index < 0 := h.fresh i hi hremoved
    have hfd : (updated op (s.channels i)).fd = fds i := (h.ok i).fd
    have hid : (updated op (s.channels i)).id = i := (h.ok i).id
    have hnone : s.poller.channels.lookup (updated op (s.channels i)).fd = none := by
      rw [hfd, h.lookup_eq_none hfds hi]
    have hwatched : watchedAfter op (s.channels i) = true := by
      rw [watchedAfter, decide_eq_true (h.fresh i hi hremoved), Bool.true_or]
    rw [PollPoller.updateChannel_new hindex hnone, hwatched, hfd, hid]
    exact h.update_new hfds op hi hremoved
  | true =>
    obtain ⟨k, pfd, hk, hget, hentry⟩ := h.entry i hi
    have hwatched : watchedAfter op (s.channels i) = !(updated op (s.channels i)).isNoneEvent := by
      rw [watchedAfter, decide_eq_false (by omega), Bool.false_or]
    have hlookup : s.poller.channels.lookup (updated op (s.channels i)).fd = some (updated op (s.channels i)).id :=
      h.lookup_eq_some hi
    have hindex : (updated op (s.channels i)).index = k := hk
    rw [PollPoller.updateChannel_old hindex hlookup hget hentry.cases_fd, hwatched]
    exact h.update_old hfds op _ hi hk

/-! ## Removals -/

theorem lookup_erase_eq_some {l : AList fun _ : Nat => ChannelId} {n m : Nat} :
    (l.erase m).lookup n = some j ↔ n ≠ m ∧ l.lookup n = some j := by
  rcases eq_or_ne n m with rfl | hne
  · rw [AList.lookup_erase]
    simp
  · rw [AList.lookup_erase_ne hne]
    simp [hne]

/-- A channel `i` goes, and its place is taken by the last entry, that of `m`. -/
def erased (i m : ChannelId) (k : Nat) (s : PollLoop) : PollLoop :=
  ({ s.setChannel i fun c => { c with addedToLoop := false } with
      poller :=
        { s.poller with
          channels := s.poller.channels.erase (s.channels i).fd
          pollfds := (iterSwap s.poller.pollfds k (s.poller.pollfds.length - 1)).dropLast }
      removed := i :: s.removed } : PollLoop).setChannel m fun c => { c with index := k }

theorem erased_channels {m : ChannelId} :
    (s.erased i m k).channels j =
      { s.channels j with
        addedToLoop := if j = i then false else (s.channels j).addedToLoop
        index := if j = m then k else (s.channels j).index } := by
  simp only [erased, setChannel]
  split <;> split <;> rfl

section
variable {m : ChannelId} (h : Inv fds w s) (hi : (s.channels i).addedToLoop) (hk : (s.channels i).index = k)
  (hm : (s.channels m).addedToLoop) (hlast : (s.channels m).index = (s.poller.pollfds.length - 1 : Nat))
include h hi hk

theorem Inv.erased_getElem? (n : Nat) : (s.erased i m k).poller.pollfds[n]? =
    if n < s.poller.pollfds.length - 1 then
      if n = k then s.poller.pollfds[s.poller.pollfds.length - 1]? else s.poller.pollfds[n]?
    else none :=
  getElem?_dropLast_iterSwap (h.index_lt hi hk)

omit hk in
theorem Inv.erased_size : (s.erased i m k).poller.channels.keys.length = (s.erased i m k).poller.pollfds.length := by
  have hmem : (s.channels i).fd ∈ s.poller.channels.keys := by
    refine AList.mem_keys.mp (AList.lookup_isSome.mp ?_)
    rw [h.lookup_eq_some hi]
    rfl
  have hkeys : (s.poller.channels.erase (s.channels i).fd).keys.length = s.poller.pollfds.length - 1 := by
    rw [AList.keys_erase, List.length_erase_of_mem hmem, h.size]
  have hlen : (iterSwap s.poller.pollfds k (s.poller.pollfds.length - 1)).dropLast.length =
      s.poller.pollfds.length - 1 := by
    rw [List.length_dropLast, length_iterSwap]
  exact hkeys.trans hlen.symm

include hm hlast

/-- The entry of `m` has come to `k`, and the others are where they were. -/
theorem Inv.erased_entry (hfds : Function.Injective fds) (hji : j ≠ i) (hj : (s.channels j).addedToLoop) :
    ∃ (n : Nat) (pfd : PollFd), ((s.erased i m k).channels j).index = n ∧
      (s.erased i m k).poller.pollfds[n]? = some pfd ∧ Entry ((s.erased i m k).channels j) (w j) pfd := by
  obtain ⟨n, pfd, hn, hpfd, hentry⟩ := h.entry j hj
  have hlt := h.index_lt hi hk
  rw [erased_channels]
  rcases eq_or_ne j m with rfl | hjm
  · have hlen : n = s.poller.pollfds.length - 1 := Int.ofNat.inj (hn.symm.trans hlast)
    have hkk : k ≠ s.poller.pollfds.length - 1 := fun hkk => hji (h.index_inj hfds hj hi (by rw [hlast, hk, hkk]))
    refine ⟨k, pfd, if_pos rfl, ?_, hentry.fd, hentry.events⟩
    rw [h.erased_getElem? hi hk, if_pos (by omega), if_pos rfl, ← hlen, hpfd]
  · have hlt' := h.index_lt hj hn
    have hkk : n ≠ k := fun hkk => hji (h.index_inj hfds hj hi (by rw [hn, hk, hkk]))
    have hlen : n ≠ s.poller.pollfds.length - 1 := fun hlen =>
      hjm (h.index_inj hfds hj hm (by rw [hn, hlast, hlen]))
    refine ⟨n, pfd, (if_neg hjm).trans hn, ?_, hentry.fd, hentry.events⟩
    rw [h.erased_getElem? hi hk, if_pos (by omega), if_neg hkk, hpfd]

theorem Inv.erased_owner {n : Nat} (hget : (s.erased i m k).poller.pollfds[n]? = some pfd) :
    ∃ j, ((s.erased i m k).channels j).addedToLoop ∧ ((s.erased i m k).channels j).index = (n : Int) := by
  rw [h.erased_getElem? hi hk] at hget
  split at hget
  case isFalse => cases hget
  case isTrue hlen =>
    rcases eq_or_ne n k with rfl | hnk
    · have hmi : m ≠ i := fun hmi => by
        rw [hmi, hk] at hlast
        omega
      refine ⟨m, ?_⟩
      rw [erased_channels]
      exact ⟨(if_neg hmi).trans hm, if_pos rfl⟩
    · obtain ⟨j, hj, hindex⟩ := h.owner n pfd ((if_neg hnk).symm.trans hget)
      have hji : j ≠ i := fun hji => by
        rw [hji, hk] at hindex
        omega
      have hjm : j ≠ m := fun hjm => by
        rw [hjm, hlast] at hindex
        omega
      refine ⟨j, ?_⟩
      rw [erased_channels]
      exact ⟨(if_neg hji).trans hj, (if_neg hjm).trans hindex⟩

/-- A channel is removed. -/
theorem Inv.remove (hfds : Function.Injective fds) : Inv fds w (s.erased i m k) := by
  have hlookup : ∀ n j, (s.erased i m k).poller.channels.lookup n = some j ↔
      n ≠ fds i ∧ s.poller.channels.lookup n = some j := fun n j => by
    rw [← (h.ok i).fd]
    exact lookup_erase_eq_some
  refine ⟨fun j => ?_, fun n j => ?_, fun j hj hrem => ?_, fun j hj => ?_, fun j hj => ?_,
    fun n pfd => h.erased_owner hi hk hm hlast, h.erased_size hi, h.passed⟩
  · rw [erased_channels]
    exact ⟨(h.ok j).id, (h.ok j).fd, (h.ok j).events, (h.ok j).passed⟩
  · rw [hlookup, h.registered, erased_channels]
    rcases eq_or_ne j i with rfl | hji
    · rw [if_pos rfl]
      exact ⟨fun hn => absurd hn.2.1.symm hn.1, fun hn => (by cases hn.2)⟩
    · rw [if_neg hji]
      refine ⟨fun hn => hn.2, fun hn => ⟨fun hfd => hji (hfds (hn.1.trans hfd)), hn⟩⟩
  · rw [erased_channels] at hj ⊢
    obtain ⟨hji, hrem⟩ := not_or.mp (mt List.mem_cons.mpr hrem)
    replace hj : (s.channels j).addedToLoop = false := (if_neg hji).symm.trans hj
    exact (if_neg (ne_of_added hj hm)).trans_lt (h.fresh j hj hrem)
  · rw [erased_channels]
    rcases List.mem_cons.mp hj with rfl | hj
    · refine ⟨if_pos rfl, ?_⟩
      split
      · exact Int.natCast_nonneg k
      · rw [hk]
        exact Int.natCast_nonneg k
    · obtain ⟨hadded, hindex⟩ := h.gone j hj
      exact ⟨(if_neg (ne_of_added hadded hi)).trans hadded,
        hindex.trans_eq (if_neg (ne_of_added hadded hm)).symm⟩
  · have hji : j ≠ i := fun hji => by
      rw [erased_channels, if_pos hji] at hj
      cases hj
    rw [erased_channels] at hj
    exact h.erased_entry hi hk hm hlast hfds hji ((if_neg hji).symm.trans hj)

end

theorem remove_eq (hnone : (s.channels i).isNoneEvent) {p : PollPoller} {moved : Option (ChannelId × Int)}
    (hp : s.poller.removeChannel { s.channels i with addedToLoop := false } = (p, moved)) :
    s.perform i .remove =
      ({ s.setChannel i fun c => { c with addedToLoop := false } with poller := p, removed := i :: s.removed } :
        PollLoop).setMoved moved := by
  have hset : (s.setChannel i fun c =>
      let c := if c.isNoneEvent then c else { c with failed := .removeNoneEvent :: c.failed }
      { c with addedToLoop := false }) = s.setChannel i fun c => { c with addedToLoop := false } :=
    setChannel_congr (by simp only [hnone, if_pos])
  have hpoller : (s.setChannel i fun c => { c with addedToLoop := false }).poller = s.poller := rfl
  simp only [perform, PollLoop.remove, hset, setChannel_self, hpoller, hp]
  rfl

theorem Inv.perform_remove (h : Inv fds w s) (hfds : Function.Injective fds) (hi : (s.channels i).addedToLoop)
    (hnone : (s.channels i).isNoneEvent) :
    ∃ m k, (s.channels i).index = (k : Nat) ∧ (s.channels m).addedToLoop ∧
      (s.channels m).index = (s.poller.pollfds.length - 1 : Nat) ∧ s.perform i .remove = s.erased i m k := by
  obtain ⟨k, pfd, hk, hget, hentry⟩ := h.entry i hi
  have hlt := h.index_lt hi hk
  obtain ⟨last, hlast⟩ : ∃ last, s.poller.pollfds[s.poller.pollfds.length - 1]? = some last :=
    ⟨_, List.getElem?_eq_getElem (by omega)⟩
  obtain ⟨m, hm, hindex⟩ := h.owner _ last hlast
  refine ⟨m, k, hk, hm, hindex, ?_⟩
  have hchecks : s.poller.removeChannel { s.channels i with addedToLoop := false } =
      s.poller.eraseChannel { s.channels i with addedToLoop := false } :=
    PollPoller.removeChannel_eq hk (h.lookup_eq_some hi) hnone hget ⟨hentry.fd, hentry.events⟩
  by_cases hkl : k = s.poller.pollfds.length - 1
  · have hmi : m = i := h.index_inj hfds hm hi (by rw [hindex, hk, hkl])
    rw [remove_eq hnone (hchecks.trans (PollPoller.eraseChannel_last hk hkl)), erased, hmi, ← hkl, iterSwap_self]
    refine (setChannel_eq_self ?_).symm
    simp only [setMoved, setChannel_self, hk]
  · obtain ⟨k', last', hk', hlast', hentry'⟩ := h.entry m hm
    have hmoved : (s.poller.channels.erase (s.channels i).fd).lookup (PollPoller.fdOf last.fd).toNat = some m := by
      have hkk : k' = s.poller.pollfds.length - 1 := Int.ofNat.inj (hk'.symm.trans hindex)
      rw [hkk, hlast] at hlast'
      cases hlast'
      rw [toNat_fdOf hentry'.cases_fd, lookup_erase_eq_some, h.lookup_eq_some hm, (h.ok m).id]
      refine ⟨fun hfd => hkl ?_, rfl⟩
      rw [(h.ok m).fd, (h.ok i).fd] at hfd
      rw [hfds hfd, hk] at hindex
      exact Int.ofNat.inj hindex
    rw [remove_eq hnone (hchecks.trans (PollPoller.eraseChannel_moved hk hkl hlast hmoved))]
    rfl

/-! ## Whole runs -/

theorem Inv.poll (h : Inv fds w s) (revents : Nat → BitVec 16) : Inv fds w (s.step (.poll revents)) := by
  have hget : ∀ k, (s.step (.poll revents)).poller.pollfds[k]? =
      s.poller.pollfds[k]?.map fun pfd : PollFd => { pfd with revents := revents k } := fun k => List.getElem?_mapIdx
  refine ⟨h.ok, h.registered, h.fresh, h.gone, fun i hi => ?_, fun k pfd hk => ?_,
    h.size.trans List.length_mapIdx.symm, h.passed⟩
  · obtain ⟨k, pfd, hk, hpfd, hentry⟩ := h.entry i hi
    refine ⟨k, { pfd with revents := revents k }, hk, ?_, hentry.fd, hentry.events⟩
    rw [hget, hpfd]
    rfl
  · rw [hget] at hk
    obtain ⟨pfd', hpfd', -⟩ := Option.map_eq_some_iff.mp hk
    exact h.owner k pfd' hpfd'

/-- The rules of a channel: it is removed only when it is registered and has no events, and not used afterwards. -/
def Obeys (s : PollLoop) : Event → Prop
  | .channel i .remove => (s.channels i).addedToLoop ∧ (s.channels i).isNoneEvent
  | .channel i _ => i ∉ s.removed
  | .poll _ => True

instance (s : PollLoop) (e : Event) : Decidable (s.Obeys e) := by
  unfold Obeys
  split <;> infer_instance

theorem Inv.perform (h : Inv fds w s) (hfds : Function.Injective fds) {op : ChannelOp}
    (hobeys : s.Obeys (.channel i op)) : ∃ w', Inv fds w' (s.perform i op) := by
  by_cases hop : op = .remove
  · subst hop
    obtain ⟨m, k, hk, hm, hlast, heq⟩ := h.perform_remove hfds hobeys.1 hobeys.2
    rw [heq]
    exact ⟨w, h.remove hobeys.1 hk hm hlast hfds⟩
  · refine ⟨_, h.perform_update hfds hop ?_⟩
    cases op with
    | remove => exact absurd rfl hop
    | _ => exact hobeys

theorem Inv.run {es : List Event} (hfds : Function.Injective fds) (run : system.Run Obeys (PollLoop.new fds) es s) :
    ∃ w, Inv fds w s := by
  refine run.invariant (I := fun s => ∃ w, Inv fds w s) (fun {s t e} h hobeys hstep => ?_) ⟨fun _ => true, Inv.new⟩
  obtain ⟨w, h⟩ := h
  cases hstep
  cases e with
  | channel i op => exact h.perform hfds hobeys
  | poll revents => exact ⟨w, h.poll revents⟩

/-- The entry of a descriptor is that of the channel whose index it has. -/
theorem Inv.entry_of_get (h : Inv fds w s) (hget : s.poller.pollfds[k]? = some pfd) :
    ∃ i, (s.channels i).addedToLoop ∧ (s.channels i).index = (k : Int) ∧ Entry (s.channels i) (w i) pfd := by
  obtain ⟨i, hi, hindex⟩ := h.owner k pfd hget
  obtain ⟨k', pfd', hk', hget', hentry⟩ := h.entry i hi
  have hkk : k = k' := Int.ofNat.inj (hindex.symm.trans hk')
  rw [← hkk, hget] at hget'
  cases hget'
  exact ⟨i, hi, hindex, hentry⟩

theorem Inv.lookup_entry (h : Inv fds w s) (hget : s.poller.pollfds[k]? = some pfd) :
    ∃ i, (s.channels i).addedToLoop ∧ (s.channels i).index = (k : Int) ∧
      s.poller.channels.lookup (PollPoller.fdOf pfd.fd).toNat = some i := by
  obtain ⟨i, hi, hindex, hentry⟩ := h.entry_of_get hget
  refine ⟨i, hi, hindex, ?_⟩
  rw [toNat_fdOf hentry.cases_fd, h.lookup_eq_some hi, (h.ok i).id]

/-- The channels of the entries with events are active, each once. -/
theorem Inv.fillActiveChannels (h : Inv fds w s) :
    ∃ active, s.poller.fillActiveChannels (s.poller.pollfds.countP PollPoller.Reported) = .ok active ∧
      (active.map Prod.fst).Nodup ∧
      ∀ i revents, (i, revents) ∈ active ↔ (s.channels i).addedToLoop ∧
        ∃ pfd, s.poller.pollfds[(s.channels i).index.toNat]? = some pfd ∧ 0 < pfd.revents.toInt ∧
          revents = pfd.revents.signExtend 32 := by
  let own : PollFd → ChannelId := fun pfd =>
    (s.poller.channels.lookup (PollPoller.fdOf pfd.fd).toNat).getD (.connection 0)
  have hof : ∀ {pfd i}, s.poller.channels.lookup (PollPoller.fdOf pfd.fd).toNat = some i → own pfd = i :=
    fun hlookup => congrArg (Option.getD · (ChannelId.connection 0)) hlookup
  have hown : ∀ {k : Nat} {pfd}, s.poller.pollfds[k]? = some pfd →
      (s.channels (own pfd)).addedToLoop ∧ (s.channels (own pfd)).index = (k : Int) ∧
        s.poller.channels.lookup (PollPoller.fdOf pfd.fd).toNat = some (own pfd) := fun hget => by
    obtain ⟨i, hi, hindex, hlookup⟩ := h.lookup_entry hget
    rw [hof hlookup]
    exact ⟨hi, hindex, hlookup⟩
  have hfill := PollPoller.fillActive_eq fun pfd hpfd => (hown (List.mem_iff_getElem?.mp hpfd).choose_spec).2.2
  refine ⟨_, hfill, ?_, fun i revents => ?_⟩
  · -- Two entries of one channel would both be at its index.
    have hnodup : (s.poller.pollfds.map own).Nodup := by
      refine List.nodup_iff_getElem?_ne_getElem?.mpr fun k k' hlt hlen heq => ?_
      rw [List.length_map] at hlen
      have hget := List.getElem?_eq_getElem (Nat.lt_trans hlt hlen)
      have hget' := List.getElem?_eq_getElem hlen
      rw [List.getElem?_map, List.getElem?_map, hget, hget'] at heq
      have hindex := (hown hget).2.1
      rw [Option.some.inj heq, (hown hget').2.1] at hindex
      omega
    rw [List.map_map]
    exact (List.filter_sublist.map own).nodup hnodup
  · rw [List.mem_map]
    constructor
    · rintro ⟨pfd, hpfd, heq⟩
      obtain ⟨hmem, hpos⟩ := List.mem_filter.mp hpfd
      obtain ⟨k, hget⟩ := List.mem_iff_getElem?.mp hmem
      obtain ⟨hadded, hindex, -⟩ := hown hget
      cases heq
      refine ⟨hadded, pfd, ?_, of_decide_eq_true hpos, rfl⟩
      rw [hindex, Int.toNat_natCast, hget]
    · rintro ⟨hadded, pfd, hget, hpos, rfl⟩
      refine ⟨pfd, List.mem_filter.mpr ⟨List.mem_of_getElem? hget, decide_eq_true hpos⟩, ?_⟩
      obtain ⟨k, pfd', hk, hget', hentry⟩ := h.entry i hadded
      rw [hk, Int.toNat_natCast, hget'] at hget
      cases hget
      have hlookup := h.lookup_eq_some hadded
      rw [← toNat_fdOf hentry.cases_fd, (h.ok i).id] at hlookup
      rw [hof hlookup]

/-- After any operations of channels that obey the rules, whatever `poll` reports in between: there are as many entries
as registered channels, each of these has its own entry, with its descriptor and its events, at its index, no assert
has failed, and the active channels are those of the entries with events. -/
theorem entries_of_channels (hfds : Function.Injective fds) {es : List Event}
    (run : system.Run Obeys (new fds) es s) :
    s.poller.channels.keys.length = s.poller.pollfds.length ∧
    (∀ i, s.poller.channels.lookup (s.channels i).fd = some i ↔ (s.channels i).addedToLoop) ∧
    (∀ i, (s.channels i).addedToLoop → 0 ≤ (s.channels i).index ∧
      ∃ pfd, s.poller.pollfds[(s.channels i).index.toNat]? = some pfd ∧
        (pfd.fd = (s.channels i).fd ∨ pfd.fd = -((s.channels i).fd : Int) - 1) ∧
        pfd.events.signExtend 32 = (s.channels i).events) ∧
    (∀ i j, (s.channels i).addedToLoop → (s.channels j).addedToLoop →
      (s.channels i).index = (s.channels j).index → i = j) ∧
    s.poller.failed = [] ∧ (∀ i, (s.channels i).failed = []) ∧
    ∃ active, s.poller.fillActiveChannels (s.poller.pollfds.countP PollPoller.Reported) = .ok active ∧
      (active.map Prod.fst).Nodup ∧
      ∀ i revents, (i, revents) ∈ active ↔ (s.channels i).addedToLoop ∧
        ∃ pfd, s.poller.pollfds[(s.channels i).index.toNat]? = some pfd ∧ 0 < pfd.revents.toInt ∧
          revents = pfd.revents.signExtend 32 := by
  obtain ⟨w, h⟩ := Inv.run hfds run
  refine ⟨h.size, fun i => ?_, fun i hi => ?_, fun i j hi hj => h.index_inj hfds hi hj, h.passed,
    fun i => (h.ok i).passed, h.fillActiveChannels⟩
  · rw [(h.ok i).fd, h.registered]
    exact and_iff_right rfl
  · obtain ⟨k, pfd, hk, hget, hentry⟩ := h.entry i hi
    rw [hk, Int.toNat_natCast]
    exact ⟨Int.natCast_nonneg k, pfd, hget, hentry.cases_fd, hentry.events⟩

/-- Three channels, of which the second has no events when the first is removed and the third takes its place. -/
theorem entries_of_channels_swapped :
    ∃ fds, Function.Injective fds ∧ ∃ s, system.Run Obeys (new fds)
        [.channel (.connection 0) .enableReading, .channel (.connection 1) .enableReading,
          .channel (.connection 2) .enableReading, .channel (.connection 1) .disableAll,
          .channel (.connection 0) .disableReading, .channel (.connection 0) .remove, .poll fun _ => 1] s ∧
      s.poller.channels.keys.length = 2 ∧ (s.channels (.connection 2)).index = 0 ∧
      ∃ active, s.poller.fillActiveChannels 2 = .ok active ∧ (.connection 2, 1) ∈ active := by
  refine ⟨ChannelId.number, ChannelId.number_injective, Lib.Stepper.Run.replay rfl fun run => ?_⟩
  obtain ⟨hsize, -, -, -, -, -, active, hactive, -, hmem⟩ := entries_of_channels ChannelId.number_injective run
  exact ⟨hsize, rfl, active, hactive, (hmem _ _).mpr ⟨rfl, _, rfl, by decide, rfl⟩⟩

end PollLoop
end Muduo
