import Mathlib.Data.List.Nodup
import Muduo.TimerQueue

/-! # The timer queue: the three containers agree

`Rep q batch` relates the containers of a queue while the entries of `batch` are taken out of it: the
owners are the waiting timers and the timers of the batch, and the ordered set holds exactly the waiting
ones, each under the expiration of the timer that is owned. Outside `handleRead` the batch is empty. Each
operation keeps the relation, so no assert of `TimerQueue.cc` fails. -/

namespace Muduo
open Lib

namespace TimerQueue

/-- The containers agree, with the entries of `batch` taken out. -/
structure Rep (q : TimerQueue) (batch : List Entry) : Prop where
  timers : ∀ e, e ∈ q.timers ↔
    e.sequence ∈ q.activeTimers ∧ ∃ t, q.timerOwners e.sequence = some t ∧ t.expiration = e.expiration
  sequence : ∀ n t, q.timerOwners n = some t → t.sequence = n
  keys : ∀ n, (q.timerOwners n).isSome ↔ n ∈ q.activeTimers ∨ n ∈ batch.map (·.sequence)
  disjoint : ∀ n ∈ q.activeTimers, n ∉ batch.map (·.sequence)
  nodup : (batch.map (·.sequence)).Nodup
  failed : q.failed = []

section Rep
variable {q : TimerQueue} {batch : List Entry} {t : Timer} {n : Int}

theorem check_of_holds {a : TimerAssert} {holds : Bool} (h : holds = true) : q.check a holds = q := by
  rw [check, if_pos h]

theorem checkSizes_of_eq {a : TimerAssert} (h : q.timers.size = q.activeTimers.size) : q.checkSizes a = q :=
  check_of_holds (decide_eq_true h)

theorem Rep.empty : Rep {} [] where
  timers e := by simp
  sequence n t h := by cases h
  keys n := by simp
  disjoint n h := by simp at h
  nodup := List.nodup_nil
  failed := rfl

/-- A sequence number determines its entry, since the owner gives the expiration. -/
theorem Rep.eq_of_sequence (h : Rep q batch) {a b : Entry} (ha : a ∈ q.timers) (hb : b ∈ q.timers)
    (hab : a.sequence = b.sequence) : a = b := by
  obtain ⟨-, t, ht, hta⟩ := (h.timers a).mp ha
  obtain ⟨-, u, hu, hub⟩ := (h.timers b).mp hb
  rw [← hab, ht] at hu
  obtain rfl := Option.some.inj hu
  cases a
  cases b
  simp_all

/-- Each waiting timer has one entry in the ordered set. -/
theorem Rep.sizes (h : Rep q batch) : q.timers.size = q.activeTimers.size := by
  have hnodup : (q.timers.toList.map (·.sequence)).Nodup :=
    List.Nodup.map_on (fun _ ha _ hb hab => h.eq_of_sequence ha hb hab) q.timers.nodup
  have hperm : (q.timers.toList.map (·.sequence)).Perm q.activeTimers.toList := by
    refine (List.perm_ext_iff_of_nodup hnodup q.activeTimers.nodup).mpr fun n => ?_
    rw [List.mem_map]
    constructor
    · rintro ⟨e, he, rfl⟩
      exact ((h.timers e).mp he).1
    · intro hn
      obtain ⟨t, ht⟩ := Option.isSome_iff_exists.mp ((h.keys n).mpr (Or.inl hn))
      exact ⟨⟨t.expiration, n⟩, (h.timers _).mpr ⟨hn, t, ht, rfl⟩, rfl⟩
  simpa [OrderedSet.size] using hperm.length_eq

theorem Rep.checkSizes (h : Rep q batch) {a : TimerAssert} : q.checkSizes a = q := checkSizes_of_eq h.sizes

theorem Rep.not_mem_timers (h : Rep q batch) {e : Entry} (hn : e.sequence ∉ q.activeTimers) : e ∉ q.timers :=
  fun he => hn ((h.timers e).mp he).1

def added (q : TimerQueue) (t : Timer) : TimerQueue :=
  { q.setOwner t with
    timers := q.timers.insert ⟨t.expiration, t.sequence⟩
    activeTimers := q.activeTimers.insert t.sequence }

/-- What `insertTimer` does to a queue in which the timer does not wait. -/
theorem Rep.insertTimer_eq (h : Rep q batch) (ha : t.sequence ∉ q.activeTimers) :
    q.insertTimer t =
      { q with
        timers := q.timers.insert ⟨t.expiration, t.sequence⟩
        activeTimers := q.activeTimers.insert t.sequence } := by
  have ht : (⟨t.expiration, t.sequence⟩ : Entry) ∉ q.timers := h.not_mem_timers ha
  have hsizes : (q.timers.insert ⟨t.expiration, t.sequence⟩).size = (q.activeTimers.insert t.sequence).size := by
    rw [OrderedSet.size_insert ht, OrderedSet.size_insert ha, h.sizes]
  rw [insertTimer, h.checkSizes, check_of_holds (decide_eq_true ht)]
  dsimp only
  rw [check_of_holds (decide_eq_true ha), checkSizes_of_eq hsizes]

theorem Rep.added {batch' : List Entry} (h : Rep q batch) (ha : t.sequence ∉ q.activeTimers)
    (hkeys : ∀ n, n ≠ t.sequence → (n ∈ batch.map (·.sequence) ↔ n ∈ batch'.map (·.sequence)))
    (hnodup : (batch'.map (·.sequence)).Nodup) (hnot : t.sequence ∉ batch'.map (·.sequence)) :
    Rep (q.added t) batch' := by
  constructor
  · intro e
    simp only [TimerQueue.added, setOwner, OrderedSet.mem_insert]
    by_cases he : e.sequence = t.sequence
    · have hnt : e ∉ q.timers := h.not_mem_timers (he ▸ ha)
      cases e
      simp_all [eq_comm]
    · have hne : e ≠ ⟨t.expiration, t.sequence⟩ := fun h => he (by rw [h])
      simp [he, hne, h.timers e]
  · intro n u hu
    simp only [TimerQueue.added, setOwner] at hu
    split at hu
    · rename_i hn
      rw [← Option.some.inj hu, hn]
    · exact h.sequence n u hu
  · intro n
    simp only [TimerQueue.added, setOwner, OrderedSet.mem_insert]
    by_cases hn : n = t.sequence
    · simp [hn]
    · rw [if_neg hn, h.keys n, hkeys n hn, or_assoc]
      exact (or_iff_right hn).symm
  · intro n hn
    rcases OrderedSet.mem_insert.mp hn with rfl | hn
    · exact hnot
    · have hne : n ≠ t.sequence := fun heq => ha (heq ▸ hn)
      rw [← hkeys n hne]
      exact h.disjoint n hn
  · exact hnodup
  · exact h.failed

/-- The timerfd, the flags and the ghost batch do not matter to the containers. -/
theorem Rep.of_eq {q' : TimerQueue} (h : Rep q batch) (ht : q'.timers = q.timers)
    (ha : q'.activeTimers = q.activeTimers) (ho : q'.timerOwners = q.timerOwners) (hf : q'.failed = q.failed) :
    Rep q' batch := by
  obtain ⟨h1, h2, h3, h4, h5, h6⟩ := h
  exact ⟨by rw [ht, ha, ho]; exact h1, by rw [ho]; exact h2, by rw [ho, ha]; exact h3, by rw [ha]; exact h4, h5,
    by rw [hf]; exact h6⟩

/-- A timer without an owner is added, and the timerfd is set if it is the first. -/
theorem Rep.addTimerInLoop_eq {clock : Int} (h : Rep q batch) (hfresh : q.timerOwners t.sequence = none) :
    Rep (q.added t) batch ∧
      q.addTimerInLoop t clock =
        if q.earliestChanges t.expiration then (q.added t).resetTimerfd t.expiration clock else q.added t := by
  have hnone : ¬(t.sequence ∈ q.activeTimers ∨ t.sequence ∈ batch.map (·.sequence)) := by
    rw [← h.keys, hfresh]
    simp
  obtain ⟨ha, hb⟩ := not_or.mp hnone
  have hrep : Rep (q.added t) batch := h.added ha (fun _ _ => Iff.rfl) h.nodup hb
  have howner : ((q.insertTimer t).timerOwners t.sequence).isNone = true := by
    rw [h.insertTimer_eq ha, hfresh]
    rfl
  have heq : (q.insertTimer t).setOwner t = q.added t := by
    rw [h.insertTimer_eq ha]
    rfl
  simp only [TimerQueue.addTimerInLoop, h.checkSizes, howner, if_true, heq]
  rw [check_of_holds rfl]
  exact ⟨hrep, rfl⟩

/-- Only the timerfd depends on the other timers. -/
theorem Rep.addTimerInLoop {clock : Int} (h : Rep q batch) (hfresh : q.timerOwners t.sequence = none) :
    ∃ fd armedAt, q.addTimerInLoop t clock = { q.added t with timerfd := fd, armedAt := armedAt } ∧
      Rep (q.addTimerInLoop t clock) batch := by
  obtain ⟨hrep, heq⟩ : _ ∧ q.addTimerInLoop t clock = _ := h.addTimerInLoop_eq hfresh
  rw [heq]
  split
  · exact ⟨_, _, rfl, hrep.of_eq rfl rfl rfl rfl⟩
  · exact ⟨_, _, rfl, hrep⟩

theorem Rep.eraseOwner (h : Rep q batch) {batch' : List Entry} (ha : n ∉ q.activeTimers)
    (hkeys : ∀ m, m ≠ n → (m ∈ batch.map (·.sequence) ↔ m ∈ batch'.map (·.sequence)))
    (hnodup : (batch'.map (·.sequence)).Nodup) (hnot : n ∉ batch'.map (·.sequence)) :
    Rep (q.eraseOwner n) batch' := by
  constructor
  · intro f
    simp only [TimerQueue.eraseOwner, h.timers f]
    by_cases hf : f.sequence = n
    · simp [hf, ha]
    · simp [hf]
  · intro m u hu
    simp only [TimerQueue.eraseOwner] at hu
    split at hu
    · cases hu
    · exact h.sequence m u hu
  · intro m
    simp only [TimerQueue.eraseOwner]
    by_cases hm : m = n
    · simpa [hm, ha] using hnot
    · rw [if_neg hm, h.keys m, hkeys m hm]
  · intro m hm
    rw [← hkeys m fun heq => ha (heq ▸ hm)]
    exact h.disjoint m hm
  · exact hnodup
  · exact h.failed

theorem Rep.setOwner (h : Rep q batch) (hb : t.sequence ∈ batch.map (·.sequence)) : Rep (q.setOwner t) batch := by
  have ha : t.sequence ∉ q.activeTimers := fun hm => h.disjoint _ hm hb
  constructor
  · intro e
    simp only [TimerQueue.setOwner, h.timers e]
    by_cases he : e.sequence = t.sequence
    · simp [he, ha]
    · simp [he]
  · intro n u hu
    simp only [TimerQueue.setOwner] at hu
    split at hu
    · rename_i hn
      rw [← Option.some.inj hu, hn]
    · exact h.sequence n u hu
  · intro n
    simp only [TimerQueue.setOwner]
    by_cases hn : n = t.sequence
    · simpa [hn] using Or.inr (List.mem_map.mp hb)
    · rw [if_neg hn, h.keys n]
  · exact h.disjoint
  · exact h.nodup
  · exact h.failed

/-- What is left of a queue after the entries of a batch were reset: no new owner, and a canceled timer of
    the batch does not wait again. -/
structure Reset (q q' : TimerQueue) : Prop where
  owners : ∀ n, (q'.timerOwners n).isSome → (q.timerOwners n).isSome
  active : ∀ n ∈ q'.activeTimers, n ∈ q.activeTimers ∨ n ∉ q.cancelingTimers
  canceling : q'.cancelingTimers = q.cancelingTimers

theorem Reset.refl : Reset q q := ⟨fun _ h => h, fun _ h => Or.inl h, rfl⟩

theorem Reset.trans {q' q'' : TimerQueue} (h : Reset q q') (h' : Reset q' q'') : Reset q q'' where
  owners n hn := h.owners n (h'.owners n hn)
  active n hn := by
    rcases h'.active n hn with ha | hc
    · exact h.active n ha
    · exact Or.inr (h.canceling ▸ hc)
  canceling := h'.canceling.trans h.canceling

/-- The timer of an entry of the batch is restarted, or its owner is erased. -/
theorem Rep.resetEntry_eq {e : Entry} {now : Int} (h : Rep q (e :: batch)) :
    ∃ t, q.timerOwners e.sequence = some t ∧
      q.resetEntry now e =
        if t.repeats ∧ e.sequence ∉ q.cancelingTimers then q.added ⟨now + t.interval, t.interval, e.sequence⟩
        else q.eraseOwner e.sequence := by
  have hmem : e.sequence ∈ (e :: batch).map (·.sequence) := List.mem_map_of_mem List.mem_cons_self
  have ha : e.sequence ∉ q.activeTimers := fun hm => h.disjoint _ hm hmem
  obtain ⟨t, ht⟩ := Option.isSome_iff_exists.mp ((h.keys e.sequence).mpr (Or.inr hmem))
  refine ⟨t, ht, ?_⟩
  simp only [TimerQueue.resetEntry, ht]
  split
  case isTrue hrepeat =>
    have hrestart : t.restart now = ⟨now + t.interval, t.interval, e.sequence⟩ := by
      rw [Timer.restart, if_pos hrepeat.1, h.sequence _ _ ht]
    rw [hrestart]
    have hset : Rep (q.setOwner ⟨now + t.interval, t.interval, e.sequence⟩) (e :: batch) := h.setOwner hmem
    exact hset.insertTimer_eq ha
  case isFalse => rw [check_of_holds (by rfl)]

/-- The next entry of the batch leaves it: its timer waits again, or its owner is gone. -/
theorem Rep.resetEntry {e : Entry} {now : Int} (h : Rep q (e :: batch)) :
    Rep (q.resetEntry now e) batch ∧ Reset q (q.resetEntry now e) := by
  have hmem : e.sequence ∈ (e :: batch).map (·.sequence) := List.mem_map_of_mem List.mem_cons_self
  have ha : e.sequence ∉ q.activeTimers := fun hm => h.disjoint _ hm hmem
  obtain ⟨hnot, hnodup⟩ := List.nodup_cons.mp h.nodup
  have hkeys : ∀ n, n ≠ e.sequence →
      (n ∈ (e :: batch).map (·.sequence) ↔ n ∈ batch.map (·.sequence)) := by
    intro n hn
    rw [List.map_cons, List.mem_cons]
    exact or_iff_right hn
  obtain ⟨t, ht, heq⟩ : ∃ t, _ ∧ q.resetEntry now e = _ := h.resetEntry_eq
  rw [heq]
  split
  case isTrue hrepeat =>
    refine ⟨h.added ha hkeys hnodup hnot, fun n hn => ?_, fun n hn => ?_, rfl⟩
    · simp only [TimerQueue.added, TimerQueue.setOwner] at hn
      split at hn
      · rename_i heq
        rw [heq, ht]
        rfl
      · exact hn
    · rcases OrderedSet.mem_insert.mp hn with rfl | hn
      · exact Or.inr hrepeat.2
      · exact Or.inl hn
  case isFalse =>
    refine ⟨h.eraseOwner ha hkeys hnodup hnot, fun n hn => ?_, fun n hn => Or.inl hn, rfl⟩
    simp only [TimerQueue.eraseOwner] at hn
    split at hn
    · cases hn
    · exact hn

theorem Rep.foldl_resetEntry {now : Int} (h : Rep q batch) :
    Rep (batch.foldl (TimerQueue.resetEntry now) q) [] ∧ Reset q (batch.foldl (TimerQueue.resetEntry now) q) := by
  induction batch generalizing q with
  | nil => exact ⟨h, .refl⟩
  | cons e batch ih =>
    obtain ⟨hrep, hreset⟩ := h.resetEntry
    obtain ⟨hrep', hreset'⟩ := ih hrep
    exact ⟨hrep', hreset.trans hreset'⟩

/-- What becomes of the timers when the entries of a batch are reset: the repeating ones that are not canceled wait for
their next expiration, the others of the batch are gone, and the rest is as before. -/
structure Rescheduled (now : Int) (batch : List Entry) (q q' : TimerQueue) : Prop where
  timers : ∀ e, e ∈ q'.timers ↔ e ∈ q.timers ∨ ∃ b ∈ batch, ∃ t, q.timerOwners b.sequence = some t ∧
    (t.repeats ∧ b.sequence ∉ q.cancelingTimers) ∧ e = ⟨now + t.interval, b.sequence⟩
  owners : ∀ n, n ∉ batch.map (·.sequence) → q'.timerOwners n = q.timerOwners n
  batchOwners : ∀ b ∈ batch, ∀ t, q.timerOwners b.sequence = some t → q'.timerOwners b.sequence =
    if t.repeats ∧ b.sequence ∉ q.cancelingTimers then some ⟨now + t.interval, t.interval, b.sequence⟩ else none
  timerfd : q'.timerfd = q.timerfd
  armedAt : q'.armedAt = q.armedAt

/-- One entry. -/
theorem Rep.rescheduled_entry {now : Int} {b : Entry} (h : Rep q (b :: batch)) :
    Rescheduled now [b] q (q.resetEntry now b) := by
  obtain ⟨t, ht, heq⟩ : ∃ t, _ ∧ q.resetEntry now b = _ := h.resetEntry_eq
  have howner : ∀ {t'}, q.timerOwners b.sequence = some t' → t' = t := fun ht' =>
    Option.some.inj (ht'.symm.trans ht)
  rw [heq]
  split
  case isTrue hrepeat =>
    refine ⟨fun e => ?_, fun n hn => if_neg (List.ne_of_not_mem_cons hn), fun b' hb' t' ht' => ?_, rfl, rfl⟩
    · rw [TimerQueue.added, OrderedSet.mem_insert, or_comm]
      refine or_congr_right ⟨fun he => ⟨b, List.mem_cons_self, t, ht, hrepeat, he⟩, ?_⟩
      rintro ⟨b', hb', t', ht', -, he⟩
      obtain rfl := List.mem_singleton.mp hb'
      rw [he, howner ht']
    · obtain rfl := List.mem_singleton.mp hb'
      rw [howner ht', if_pos hrepeat]
      exact if_pos rfl
  case isFalse hrepeat =>
    refine ⟨fun e => ?_, fun n hn => if_neg (List.ne_of_not_mem_cons hn), fun b' hb' t' ht' => ?_, rfl, rfl⟩
    · refine (or_iff_left ?_).symm
      rintro ⟨b', hb', t', ht', hrepeat', -⟩
      obtain rfl := List.mem_singleton.mp hb'
      exact hrepeat (howner ht' ▸ hrepeat')
    · obtain rfl := List.mem_singleton.mp hb'
      rw [howner ht', if_neg hrepeat]
      exact if_pos rfl

/-- One entry, and then the others, whose timers are not that of the first. -/
theorem Rescheduled.cons {now : Int} {b : Entry} {q' q'' : TimerQueue} (h : Rescheduled now [b] q q')
    (h' : Rescheduled now batch q' q'') (hcanceling : q'.cancelingTimers = q.cancelingTimers)
    (hnot : b.sequence ∉ batch.map (·.sequence)) : Rescheduled now (b :: batch) q q'' := by
  have hother : ∀ b' ∈ batch, q'.timerOwners b'.sequence = q.timerOwners b'.sequence := fun b' hb' =>
    h.owners _ fun hmem => hnot (List.mem_map.mpr ⟨b', hb', List.mem_singleton.mp hmem⟩)
  refine ⟨fun e => ?_, fun n hn => ?_, fun b' hb' t' ht' => ?_, h'.timerfd.trans h.timerfd, h'.armedAt.trans h.armedAt⟩
  · rw [h'.timers, h.timers, hcanceling, or_assoc]
    refine or_congr_right ⟨?_, ?_⟩
    · rintro (⟨b', hb', he⟩ | ⟨b', hb', t', ht', he⟩)
      · exact ⟨b', List.mem_cons.mpr (.inl (List.mem_singleton.mp hb')), he⟩
      · exact ⟨b', List.mem_cons_of_mem _ hb', t', (hother b' hb').symm.trans ht', he⟩
    · rintro ⟨b', hb', t', ht', he⟩
      rcases List.mem_cons.mp hb' with rfl | hb'
      · exact .inl ⟨b', List.mem_cons_self, t', ht', he⟩
      · exact .inr ⟨b', hb', t', (hother b' hb').trans ht', he⟩
  · obtain ⟨hnb, hn⟩ := not_or.mp (mt List.mem_cons.mpr hn)
    exact (h'.owners n hn).trans (h.owners n (mt List.mem_singleton.mp hnb))
  · rcases List.mem_cons.mp hb' with rfl | hb'
    · exact (h'.owners _ hnot).trans (h.batchOwners b' List.mem_cons_self t' ht')
    · rw [← hcanceling]
      exact h'.batchOwners b' hb' t' ((hother b' hb').trans ht')

theorem Rep.rescheduled {now : Int} (h : Rep q batch) :
    Rescheduled now batch q (batch.foldl (TimerQueue.resetEntry now) q) := by
  induction batch generalizing q with
  | nil => exact ⟨fun e => by simp, fun _ _ => rfl, fun _ hb => absurd hb List.not_mem_nil, rfl, rfl⟩
  | cons b batch ih =>
    obtain ⟨hrep, hreset⟩ : Rep (q.resetEntry now b) batch ∧ _ := h.resetEntry
    exact h.rescheduled_entry.cons (ih hrep) hreset.canceling (List.nodup_cons.mp h.nodup).1

theorem Rep.reset {now clock : Int} (h : Rep q batch) :
    Rep (q.reset batch now clock) [] ∧ Reset q (q.reset batch now clock) := by
  obtain ⟨hrep, hreset⟩ : _ ∧ Reset q (batch.foldl (TimerQueue.resetEntry now) q) := h.foldl_resetEntry
  simp only [TimerQueue.reset]
  split
  · exact ⟨hrep, hreset⟩
  · split
    · exact ⟨hrep.of_eq rfl rfl rfl rfl, hreset.owners, hreset.active, hreset.canceling⟩
    · exact ⟨hrep, hreset⟩

/-- The queue without a timer that waited in it until `expiration`. -/
def removed (q : TimerQueue) (n expiration : Int) : TimerQueue :=
  { q.eraseOwner n with
    timers := q.timers.erase ⟨expiration, n⟩
    activeTimers := q.activeTimers.erase n }

theorem Rep.removed (h : Rep q batch) (ha : n ∈ q.activeTimers) (ht : q.timerOwners n = some t) :
    Rep (q.removed n t.expiration) batch := by
  have hb : n ∉ batch.map (·.sequence) := h.disjoint n ha
  -- Without its owner's change, this is the queue with the entry moved to the batch.
  have hmoved : Rep
      { q with
        timers := q.timers.erase ⟨t.expiration, n⟩
        activeTimers := q.activeTimers.erase n } (⟨t.expiration, n⟩ :: batch) := by
    constructor
    · intro e
      simp only [OrderedSet.mem_erase, h.timers e]
      constructor
      · rintro ⟨⟨hea, howner⟩, hne⟩
        refine ⟨⟨hea, fun he => hne ?_⟩, howner⟩
        exact h.eq_of_sequence ((h.timers e).mpr ⟨hea, howner⟩) ((h.timers _).mpr ⟨ha, t, ht, rfl⟩) he
      · rintro ⟨⟨hea, hne⟩, howner⟩
        exact ⟨⟨hea, howner⟩, fun he => hne (by rw [he])⟩
    · exact h.sequence
    · intro m
      simp only [OrderedSet.mem_erase, List.map_cons, List.mem_cons, h.keys m]
      by_cases hm : m = n
      · simp [hm, ha]
      · simp [hm]
    · intro m hm
      rw [List.map_cons, List.mem_cons, not_or]
      exact ⟨(OrderedSet.mem_erase.mp hm).2, h.disjoint m (OrderedSet.mem_erase.mp hm).1⟩
    · exact List.nodup_cons.mpr ⟨hb, h.nodup⟩
    · exact h.failed
  exact hmoved.eraseOwner (fun hm => (OrderedSet.mem_erase.mp hm).2 rfl)
    (fun m hm => by rw [List.map_cons, List.mem_cons]; exact or_iff_right hm) h.nodup hb

/-- What `cancelInLoop` does: a waiting timer leaves all three containers, and a timer that does not wait
    is marked while callbacks run. -/
theorem Rep.cancelInLoop_cases (h : Rep q batch) :
    (∃ t, n ∈ q.activeTimers ∧ q.timerOwners n = some t ∧ q.cancelInLoop n = q.removed n t.expiration) ∨
    (n ∉ q.activeTimers ∧ q.cancelInLoop n = { q with cancelingTimers := q.cancelingTimers.insert n }) ∨
    ((0 < n → n ∉ q.activeTimers ∧ q.callingExpiredTimers = false) ∧ q.cancelInLoop n = q) := by
  by_cases hn : n ≤ 0
  · refine Or.inr (Or.inr ⟨fun hpos => absurd hn (Int.not_le.mpr hpos), ?_⟩)
    rw [TimerQueue.cancelInLoop, if_pos hn, h.checkSizes]
  by_cases ha : n ∈ q.activeTimers
  · obtain ⟨t, ht⟩ := Option.isSome_iff_exists.mp ((h.keys n).mpr (Or.inl ha))
    have hmem : (⟨t.expiration, n⟩ : Entry) ∈ q.timers := (h.timers _).mpr ⟨ha, t, ht, rfl⟩
    refine Or.inl ⟨t, ha, ht, ?_⟩
    simp only [TimerQueue.cancelInLoop, h.checkSizes, if_neg hn, if_pos ha, ht]
    rw [check_of_holds (decide_eq_true hmem), check_of_holds (Option.isSome_of_eq_some ht)]
    exact checkSizes_of_eq (h.removed ha ht).sizes
  · right
    simp only [TimerQueue.cancelInLoop, h.checkSizes, if_neg hn, if_neg ha]
    cases hc : q.callingExpiredTimers
    · exact Or.inr ⟨fun _ => ⟨ha, rfl⟩, h.checkSizes⟩
    · exact Or.inl ⟨ha, checkSizes_of_eq h.sizes⟩

theorem Rep.cancelInLoop (h : Rep q batch) : Rep (q.cancelInLoop n) batch := by
  rcases h.cancelInLoop_cases (n := n) with ⟨t, ha, ht, heq⟩ | ⟨-, heq⟩ | ⟨-, heq⟩
  · rw [heq]
    exact h.removed ha ht
  · rw [heq]
    exact h.of_eq rfl rfl rfl rfl
  · rw [heq]
    exact h

/-- The loop of `getExpired` takes the sequence numbers of the batch out of the waiting ones. -/
theorem foldl_eraseActive {l : List Entry} (hmem : ∀ e ∈ l, e.sequence ∈ q.activeTimers)
    (hnodup : (l.map (·.sequence)).Nodup) :
    ∃ active : OrderedSet Int, l.foldl eraseActive q = { q with activeTimers := active } ∧
      ∀ n, n ∈ active ↔ n ∈ q.activeTimers ∧ n ∉ l.map (·.sequence) := by
  induction l generalizing q with
  | nil => exact ⟨q.activeTimers, rfl, fun n => by simp⟩
  | cons e l ih =>
    obtain ⟨hnot, hnodup⟩ := List.nodup_cons.mp hnodup
    have hstep : q.eraseActive e = { q with activeTimers := q.activeTimers.erase e.sequence } := by
      rw [eraseActive, check_of_holds (decide_eq_true (hmem e List.mem_cons_self))]
    have hrest : ∀ f ∈ l, f.sequence ∈ (q.eraseActive e).activeTimers := by
      intro f hf
      rw [hstep]
      exact OrderedSet.mem_erase.mpr ⟨hmem f (List.mem_cons_of_mem e hf),
        fun heq => hnot (List.mem_map.mpr ⟨f, hf, heq⟩)⟩
    obtain ⟨active, heq, hactive⟩ := ih hrest hnodup
    refine ⟨active, ?_, fun n => ?_⟩
    · rw [List.foldl_cons, heq, hstep]
    · rw [hactive, hstep, OrderedSet.mem_erase, List.map_cons, List.mem_cons, not_or, and_assoc]

/-- The expired timers leave the two containers of waiting timers and keep their owners. -/
theorem Rep.getExpired {now : Int} (h : Rep q []) :
    Rep (q.getExpired now) (q.expiredEntries now) ∧ (q.getExpired now).timerOwners = q.timerOwners := by
  have hmem : ∀ e ∈ q.expiredEntries now, e ∈ q.timers ∧ e ≤ ⟨now, maxSequence⟩ :=
    fun e he => OrderedSet.mem_upTo.mp he
  have hactive : ∀ e ∈ q.expiredEntries now, e.sequence ∈ q.activeTimers :=
    fun e he => ((h.timers e).mp (hmem e he).1).1
  have hnodup : ((q.expiredEntries now).map (·.sequence)).Nodup :=
    List.Nodup.map_on (fun _ ha _ hb hab => h.eq_of_sequence (hmem _ ha).1 (hmem _ hb).1 hab) OrderedSet.nodup_upTo
  obtain ⟨active, heq, hmemActive⟩ := foldl_eraseActive
    (q := { q with timers := q.timers.above ⟨now, maxSequence⟩ }) hactive hnodup
  have hrep : Rep { q with timers := q.timers.above ⟨now, maxSequence⟩, activeTimers := active }
      (q.expiredEntries now) := by
    constructor
    · intro e
      simp only [OrderedSet.mem_above, hmemActive, h.timers e]
      constructor
      · rintro ⟨⟨ha, howner⟩, hlt⟩
        refine ⟨⟨ha, fun hm => ?_⟩, howner⟩
        obtain ⟨f, hf, hfe⟩ := List.mem_map.mp hm
        have heq := h.eq_of_sequence (hmem f hf).1 ((h.timers e).mpr ⟨ha, howner⟩) hfe
        exact absurd (heq ▸ (hmem f hf).2) (not_le.mpr hlt)
      · rintro ⟨⟨ha, hm⟩, howner⟩
        refine ⟨⟨ha, howner⟩, not_le.mp fun hle => hm (List.mem_map_of_mem ?_)⟩
        exact OrderedSet.mem_upTo.mpr ⟨(h.timers e).mpr ⟨ha, howner⟩, hle⟩
    · exact h.sequence
    · intro n
      rw [h.keys n, hmemActive]
      simp only [List.map_nil, List.not_mem_nil, or_false]
      constructor
      · intro hn
        by_cases hm : n ∈ (q.expiredEntries now).map (·.sequence)
        · exact Or.inr hm
        · exact Or.inl ⟨hn, hm⟩
      · rintro (hn | hm)
        · exact hn.1
        · obtain ⟨e, he, rfl⟩ := List.mem_map.mp hm
          exact hactive e he
    · intro n hn
      exact ((hmemActive n).mp hn).2
    · exact hnodup
    · exact h.failed
  have hfinal : q.getExpired now =
      { q with timers := q.timers.above ⟨now, maxSequence⟩, activeTimers := active } := by
    simp only [TimerQueue.getExpired, h.checkSizes, heq]
    exact checkSizes_of_eq hrep.sizes
  rw [hfinal]
  exact ⟨hrep, rfl⟩

theorem Rep.readTimerfd {now : Int} (h : Rep q batch) : Rep (q.readTimerfd now) batch := by
  unfold TimerQueue.readTimerfd
  split
  · exact h
  · split
    · exact h.of_eq rfl rfl rfl rfl
    · exact h

@[simp] theorem readTimerfd_timers {now : Int} : (q.readTimerfd now).timers = q.timers := by
  unfold TimerQueue.readTimerfd
  split
  · rfl
  · split <;> rfl

@[simp] theorem readTimerfd_timerOwners {now : Int} : (q.readTimerfd now).timerOwners = q.timerOwners := by
  unfold TimerQueue.readTimerfd
  split
  · rfl
  · split <;> rfl

end Rep
end TimerQueue

/-! ## Every run of a loop -/

def TimerFunctor.timer? : TimerFunctor → Option Timer
  | .addTimerInLoop t => some t
  | .cancelInLoop _ => none

namespace TimerLoop
open TimerQueue

/-- The timers that are created and not in the queue yet. -/
def toAdd (s : TimerLoop) : List Timer := s.inHand ++ s.pendingFunctors.filterMap TimerFunctor.timer?

/-- The containers agree, and each timer that is still to be added is a new one. -/
structure Inv (s : TimerLoop) : Prop where
  rep : Rep s.queue s.queue.batch
  idle : s.queue.callingExpiredTimers = false → s.queue.batch = []
  nonneg : 0 ≤ s.numCreated
  nodup : (s.toAdd.map (·.sequence)).Nodup
  positive : ∀ t ∈ s.toAdd, 0 < t.sequence
  fresh : ∀ t ∈ s.toAdd, t.sequence ≤ s.numCreated ∧ s.queue.timerOwners t.sequence = none
  owned : ∀ n, (s.queue.timerOwners n).isSome → n ≤ s.numCreated

/-- What user code in a callback leaves alone: the batch and where `handleRead` is in it. -/
def SameBatch (s t : TimerLoop) : Prop :=
  t.queue.batch = s.queue.batch ∧ t.queue.waiting = s.queue.waiting ∧
    t.queue.callingExpiredTimers = s.queue.callingExpiredTimers

section Steps
variable {s : TimerLoop} {t : Timer} {n expiration interval now clock : Int}

theorem SameBatch.refl (s : TimerLoop) : SameBatch s s := ⟨rfl, rfl, rfl⟩

theorem SameBatch.trans {t u : TimerLoop} (h : SameBatch s t) (h' : SameBatch t u) : SameBatch s u :=
  ⟨h'.1.trans h.1, h'.2.1.trans h.2.1, h'.2.2.trans h.2.2⟩

theorem Inv.not_owned (h : Inv s) (hlt : s.numCreated < n) : s.queue.timerOwners n = none := by
  cases howner : s.queue.timerOwners n with
  | none => rfl
  | some t => exact absurd (h.owned n (Option.isSome_of_eq_some howner)) (not_le.mpr hlt)

/-- The invariant is about the queue, the timers to add and the counter. -/
theorem Inv.of_toAdd {u : TimerLoop} (h : Inv s) (hq : u.queue = s.queue) (hc : s.numCreated ≤ u.numCreated)
    (hnodup : (u.toAdd.map (·.sequence)).Nodup)
    (hfresh : ∀ t ∈ u.toAdd, t ∈ s.toAdd ∨ s.numCreated < t.sequence ∧ t.sequence ≤ u.numCreated) : Inv u where
  rep := hq ▸ h.rep
  idle := hq ▸ h.idle
  nonneg := le_trans h.nonneg hc
  nodup := hnodup
  positive t ht := by
    rcases hfresh t ht with hold | ⟨hlt, -⟩
    · exact h.positive t hold
    · exact lt_of_le_of_lt h.nonneg hlt
  fresh t ht := by
    rw [hq]
    rcases hfresh t ht with hold | ⟨hlt, hle⟩
    · exact ⟨le_trans (h.fresh t hold).1 hc, (h.fresh t hold).2⟩
    · exact ⟨hle, h.not_owned hlt⟩
  owned n hn := le_trans (h.owned n (hq ▸ hn)) hc

theorem Inv.setLog (h : Inv s) (log : List TimerEvent) : Inv { s with log := log } :=
  ⟨h.rep, h.idle, h.nonneg, h.nodup, h.positive, h.fresh, h.owned⟩

/-- A step of the queue that adds no owner. -/
theorem Inv.setQueue {q : TimerQueue} (h : Inv s) (hrep : Rep q q.batch)
    (hidle : q.callingExpiredTimers = false → q.batch = [])
    (howners : ∀ n, (q.timerOwners n).isSome → (s.queue.timerOwners n).isSome) : Inv { s with queue := q } where
  rep := hrep
  idle := hidle
  nonneg := h.nonneg
  nodup := h.nodup
  positive := h.positive
  fresh t ht := by
    refine ⟨(h.fresh t ht).1, Option.not_isSome_iff_eq_none.mp fun hsome => ?_⟩
    simpa [(h.fresh t ht).2] using howners _ hsome
  owned n hn := h.owned n (howners n hn)

theorem Inv.addTimerInLoop (h : Inv s) (hfresh : s.queue.timerOwners t.sequence = none)
    (hle : t.sequence ≤ s.numCreated) (hnot : t.sequence ∉ s.toAdd.map (·.sequence)) :
    Inv (addTimerInLoop t clock s) ∧ SameBatch s (addTimerInLoop t clock s) := by
  obtain ⟨fd, armedAt, heq, hrep⟩ : ∃ fd armedAt,
      s.queue.addTimerInLoop t clock = { s.queue.added t with timerfd := fd, armedAt := armedAt } ∧ _ :=
    h.rep.addTimerInLoop hfresh
  rw [heq] at hrep
  simp only [TimerLoop.addTimerInLoop, SameBatch, heq]
  refine ⟨?_, rfl, rfl, rfl⟩
  refine ⟨hrep, h.idle, h.nonneg, h.nodup, h.positive, fun u hu => ⟨(h.fresh u hu).1, ?_⟩, fun n hn => ?_⟩
  · have hne : u.sequence ≠ t.sequence := fun heq => hnot (heq ▸ List.mem_map_of_mem hu)
    simp only [added, setOwner, if_neg hne]
    exact (h.fresh u hu).2
  · simp only [added, setOwner] at hn
    by_cases heq : n = t.sequence
    · exact heq ▸ hle
    · rw [if_neg heq] at hn
      exact h.owned n hn

theorem Inv.not_mem_toAdd (h : Inv s) (hlt : s.numCreated < n) : n ∉ s.toAdd.map (·.sequence) := by
  intro hmem
  obtain ⟨u, hu, rfl⟩ := List.mem_map.mp hmem
  exact absurd (h.fresh u hu).1 (not_le.mpr hlt)

theorem Inv.addTimer (h : Inv s) :
    Inv (addTimer expiration interval clock s) ∧ SameBatch s (addTimer expiration interval clock s) := by
  have hlt : s.numCreated < s.numCreated + 1 := by omega
  have hcount : Inv { s with numCreated := s.numCreated + 1 } :=
    h.of_toAdd rfl (le_of_lt hlt) h.nodup fun _ ht => Or.inl ht
  have hnot := h.not_mem_toAdd hlt
  obtain ⟨hinv, hsame⟩ : Inv (TimerLoop.addTimerInLoop (s.newTimer expiration interval) clock _) ∧ _ :=
    hcount.addTimerInLoop (h.not_owned hlt) (le_refl _) hnot
  exact ⟨hinv.setLog _, hsame⟩

theorem Inv.createElsewhere (h : Inv s) : Inv (createElsewhere expiration interval s) := by
  have hlt : s.numCreated < s.numCreated + 1 := by omega
  have hperm : (TimerLoop.createElsewhere expiration interval s).toAdd.Perm
      (s.newTimer expiration interval :: s.toAdd) := by
    simp only [toAdd, TimerLoop.createElsewhere, List.append_assoc]
    exact List.perm_middle
  refine h.of_toAdd rfl (le_of_lt hlt) ?_ fun t ht => ?_
  · exact (hperm.map _).nodup_iff.mpr (List.nodup_cons.mpr ⟨h.not_mem_toAdd hlt, h.nodup⟩)
  · rcases List.mem_cons.mp (hperm.mem_iff.mp ht) with rfl | hold
    · exact Or.inr ⟨hlt, le_refl _⟩
    · exact Or.inl hold

/-- Queueing a timer that is in hand only changes the order of the timers to add. -/
theorem toAdd_queueElsewhere (hmem : t ∈ s.inHand) : (queueElsewhere t s).toAdd.Perm s.toAdd := by
  rw [queueElsewhere, if_pos hmem]
  simp only [toAdd]
  rw [List.filterMap_append, ← List.append_assoc]
  refine (List.perm_append_singleton t _).trans ?_
  exact (List.perm_cons_erase hmem).symm.append_right _

theorem Inv.queueElsewhere (h : Inv s) : Inv (queueElsewhere t s) ∧ SameBatch s (queueElsewhere t s) := by
  by_cases hmem : t ∈ s.inHand
  · have hperm := toAdd_queueElsewhere hmem
    have hq : (TimerLoop.queueElsewhere t s).queue = s.queue := by rw [TimerLoop.queueElsewhere, if_pos hmem]
    have hc : (TimerLoop.queueElsewhere t s).numCreated = s.numCreated := by
      rw [TimerLoop.queueElsewhere, if_pos hmem]
    refine ⟨h.of_toAdd hq (le_of_eq hc.symm) ((hperm.map _).nodup_iff.mpr h.nodup)
      fun u hu => Or.inl (hperm.mem_iff.mp hu), ?_⟩
    rw [SameBatch, hq]
    exact ⟨rfl, rfl, rfl⟩
  · rw [TimerLoop.queueElsewhere, if_neg hmem]
    exact ⟨h, .refl s⟩

theorem Inv.cancelElsewhere (h : Inv s) : Inv (cancelElsewhere n s) := by
  have htoAdd : (TimerLoop.cancelElsewhere n s).toAdd = s.toAdd := by
    simp [toAdd, TimerLoop.cancelElsewhere, TimerFunctor.timer?]
  exact h.of_toAdd rfl (le_refl _) (htoAdd ▸ h.nodup) fun _ ht => Or.inl (htoAdd ▸ ht)

theorem Inv.cancelInLoop (h : Inv s) : Inv (cancelInLoop n s) ∧ SameBatch s (cancelInLoop n s) := by
  have hrep : Rep (s.queue.cancelInLoop n) s.queue.batch := h.rep.cancelInLoop
  unfold TimerLoop.cancelInLoop
  rcases h.rep.cancelInLoop_cases (n := n) with ⟨t, ha, ht, heq⟩ | ⟨-, heq⟩ | ⟨-, heq⟩
  · rw [heq] at hrep ⊢
    refine ⟨(h.setQueue hrep h.idle fun m hm => ?_).setLog _, rfl, rfl, rfl⟩
    simp only [removed, eraseOwner] at hm
    split at hm
    · cases hm
    · exact hm
  · rw [heq] at hrep ⊢
    exact ⟨(h.setQueue hrep h.idle fun _ hm => hm).setLog _, rfl, rfl, rfl⟩
  · rw [heq]
    exact ⟨h.setLog _, rfl, rfl, rfl⟩

theorem toAdd_cons {f : TimerFunctor} {rest : List TimerFunctor} (hp : s.pendingFunctors = f :: rest) :
    s.toAdd.Perm (f.timer?.toList ++ TimerLoop.toAdd { s with pendingFunctors := rest }) := by
  cases f with
  | addTimerInLoop t =>
    simp only [toAdd, hp, List.filterMap_cons, TimerFunctor.timer?]
    exact List.perm_middle
  | cancelInLoop n =>
    simp only [toAdd, hp, List.filterMap_cons, TimerFunctor.timer?]
    exact .refl _

theorem Inv.popFunctor {f : TimerFunctor} {rest : List TimerFunctor} (h : Inv s)
    (hp : s.pendingFunctors = f :: rest) : Inv { s with pendingFunctors := rest } := by
  have hperm := toAdd_cons hp
  refine h.of_toAdd rfl (le_refl _) ?_ fun u hu => Or.inl (hperm.mem_iff.mpr (List.mem_append_right _ hu))
  exact ((hperm.map _).nodup_iff.mp h.nodup).sublist ((List.sublist_append_right _ _).map _)

theorem Inv.head_fresh {rest : List TimerFunctor} (h : Inv s)
    (hp : s.pendingFunctors = .addTimerInLoop t :: rest) :
    t.sequence ≤ s.numCreated ∧ s.queue.timerOwners t.sequence = none ∧
      t.sequence ∉ (TimerLoop.toAdd { s with pendingFunctors := rest }).map (·.sequence) := by
  have hperm := toAdd_cons hp
  have hfresh := h.fresh t (hperm.mem_iff.mpr List.mem_cons_self)
  exact ⟨hfresh.1, hfresh.2, (List.nodup_cons.mp ((hperm.map (·.sequence)).nodup_iff.mp h.nodup)).1⟩

theorem Inv.runFunctor (h : Inv s) : Inv (runFunctor clock s) ∧ SameBatch s (runFunctor clock s) := by
  unfold TimerLoop.runFunctor
  split
  case h_1 => exact ⟨h, .refl s⟩
  case h_2 t rest hpending =>
    obtain ⟨hle, hfresh, hnot⟩ := h.head_fresh hpending
    exact (h.popFunctor hpending).addTimerInLoop hfresh hle hnot
  case h_3 n rest hpending => exact (h.popFunctor hpending).cancelInLoop

/-- Expired timers leave the set and keep their owners. -/
theorem Inv.timerOwners_beginExpired (h : Inv s) (hb : s.queue.batch = []) :
    (beginExpired now s).queue.timerOwners = s.queue.timerOwners := by
  have hread : Rep (s.queue.readTimerfd now) [] := (hb ▸ h.rep).readTimerfd
  simp only [beginExpired]
  rw [hread.getExpired.2, readTimerfd_timerOwners]

theorem Inv.beginExpired (h : Inv s) (hb : s.queue.batch = []) : Inv (beginExpired now s) := by
  have hread : Rep (s.queue.readTimerfd now) [] := (hb ▸ h.rep).readTimerfd
  have hexpired : (s.queue.readTimerfd now).expiredEntries now = s.queue.expiredEntries now := by
    simp only [expiredEntries, readTimerfd_timers]
  obtain ⟨hrep, -⟩ : Rep (getExpired _ now) _ ∧ _ := hread.getExpired
  rw [hexpired] at hrep
  refine h.setQueue (hrep.of_eq rfl rfl rfl rfl) (by simp) fun n hn => ?_
  rw [← h.timerOwners_beginExpired hb]
  exact hn

theorem Inv.endExpired (h : Inv s) : Inv (endExpired s.queue.batch now clock s) := by
  have hstopped : Rep { s.queue with callingExpiredTimers := false } s.queue.batch := h.rep.of_eq rfl rfl rfl rfl
  obtain ⟨hrep, hreset⟩ : _ ∧ Reset _ (_ : TimerQueue) := hstopped.reset
  exact h.setQueue (hrep.of_eq rfl rfl rfl rfl) (fun _ => rfl) hreset.owners

theorem Inv.perform {op : Op} (h : Inv s) : Inv (perform op s) ∧ SameBatch s (perform op s) := by
  cases op with
  | addTimer expiration interval clock => exact h.addTimer
  | cancel n => exact h.cancelInLoop
  | createElsewhere expiration interval => exact ⟨h.createElsewhere, .refl s⟩
  | queueElsewhere t => exact h.queueElsewhere
  | cancelElsewhere n => exact ⟨h.cancelElsewhere, .refl s⟩

end Steps

section Callbacks
variable {K : TimerLoop → Prop} {s : TimerLoop} {now clock : Int}

/-- What a property of the loop has to show for `handleRead`, to hold along with `Inv` in every run. -/
structure KeptByBatch (K : TimerLoop → Prop) : Prop where
  begins : ∀ {s now}, Inv s → K s → s.queue.batch = [] → K (beginExpired now s)
  takes : ∀ {s e rest}, Inv s → K s → s.queue.waiting = e :: rest → K (takeNext rest s)
  starts : ∀ {s e rest}, Inv s → K s → s.queue.waiting = e :: rest → K (start e.sequence (takeNext rest s))
  ends : ∀ {s now clock}, Inv s → K s → K (endExpired s.queue.batch now clock s)

/-- The invariant of the points where user code is in control. -/
def Within (K : TimerLoop → Prop) (s : TimerLoop) : Prop := Inv s ∧ K s

/-- The invariant of the points where no callback runs. -/
def Between (K : TimerLoop → Prop) (s : TimerLoop) : Prop := Within K s ∧ s.queue.batch = []

/-- The part of this that is about the turns of the callbacks. -/
structure KeptByTurns (K : TimerLoop → Prop) : Prop where
  takes : ∀ {s e rest}, Inv s → K s → s.queue.waiting = e :: rest → K (takeNext rest s)
  starts : ∀ {s e rest}, Inv s → K s → s.queue.waiting = e :: rest → K (start e.sequence (takeNext rest s))

theorem KeptByBatch.turns (k : KeptByBatch K) : KeptByTurns K := ⟨k.takes, k.starts⟩

theorem wp_runExpired {R : TimerLoop → TimerLoop → Prop} (hR : ∀ {s t}, R s t → SameBatch s t) (k : KeptByTurns K)
    {expired : List Entry} (h : Within K s) (hw : s.queue.waiting = expired) :
    (runExpired expired).wp (Within K) R (fun _ t => Within K t ∧ t.queue.batch = s.queue.batch) s := by
  -- Each turn takes the head of the waiting entries, and its callback leaves the rest of them alone.
  induction expired generalizing s with
  | nil => exact ⟨h, rfl⟩
  | cons e rest ih =>
    have htake : Within K (takeNext rest s) :=
      ⟨h.1.setQueue (h.1.rep.of_eq rfl rfl rfl rfl) h.1.idle fun _ hn => hn, k.takes h.1 h.2 hw⟩
    have hstart : Within K (start e.sequence (takeNext rest s)) := ⟨htake.1.setLog _, k.starts h.1 h.2 hw⟩
    simp only [runExpired, Code.wp_bind, Code.wp_get, Code.wp_modify]
    refine Code.wp_ite (fun _ => ?_) (fun _ => ih htake rfl)
    simp only [Code.wp_bind, Code.wp_modify, Code.wp_callback]
    refine ⟨hstart, fun t ht hr => ?_⟩
    have hsame := hR hr
    refine Code.wp_mono (fun _ u hu => ⟨hu.1, hu.2.trans hsame.1⟩) (ih ht hsame.2.1)

theorem wp_handleRead (k : KeptByBatch K) (h : Between K s) :
    (handleRead now clock).wp (Within K) SameBatch (fun _ t => Between K t) s := by
  simp only [handleRead, Code.wp_bind, Code.wp_get, Code.wp_modify]
  have hbegin : Within K (beginExpired now s) := ⟨h.1.1.beginExpired h.2, k.begins h.1.1 h.1.2 h.2⟩
  refine Code.wp_mono (fun _ t ht => ?_) (wp_runExpired id k.turns hbegin rfl)
  obtain ⟨⟨hinv, hk⟩, hb⟩ := ht
  have hbatch : s.queue.expiredEntries now = t.queue.batch := hb.symm
  rw [hbatch]
  exact ⟨⟨hinv.endExpired, k.ends hinv hk⟩, rfl⟩

/-- `Inv` and `K` hold in every run, if the operations keep `K` under the condition of the run. -/
theorem keeps {cond : Reentrant.Cond TimerLoop Op Top} (k : KeptByBatch K)
    (hperform : ∀ {op s}, Inv s → K s → cond.call op s → K (perform op s))
    (hfunctor : ∀ {clock s}, Inv s → K s → cond.top (.runFunctor clock) s → K (runFunctor clock s)) :
    system.Keeps cond (Within K) (Between K) SameBatch where
  refl := .refl
  trans := .trans
  inner h := h.1
  outer h ht hsame := ⟨ht, hsame.1.trans h.2⟩
  api h hc := ⟨⟨h.1.perform.1, hperform h.1 h.2 hc⟩, h.1.perform.2⟩
  top := by
    intro t s h _ hc
    cases t with
    | handleRead now clock => exact wp_handleRead k h
    | runFunctor clock =>
      obtain ⟨hinv, hsame⟩ : Inv (runFunctor clock s) ∧ _ := h.1.1.runFunctor
      exact ⟨⟨hinv, hfunctor h.1.1 h.1.2 hc⟩, hsame.1.trans h.2⟩

theorem Between.empty (hk : K {}) : Between K {} :=
  ⟨⟨⟨.empty, fun _ => rfl, le_refl _, List.nodup_nil, by simp [toAdd], by simp [toAdd], by simp⟩, hk⟩, rfl⟩

end Callbacks

/-- In every run the invariant holds, and outside `handleRead` there is no batch. -/
theorem Inv.of_run {es : List (Reentrant.Event Op Top)} {c : Config TimerLoop Int}
    (h : system.stepper.Run (fun _ _ => True) ⟨{}, []⟩ es c) :
    Inv c.state ∧ (c.frames = [] → c.state.queue.batch = []) := by
  have k : system.Keeps ⟨fun _ _ => True, fun _ _ => True⟩ (Within fun _ => True) (Between fun _ => True)
      SameBatch :=
    keeps ⟨fun _ _ _ => trivial, fun _ _ _ => trivial, fun _ _ _ => trivial, fun _ _ => trivial⟩
      (fun _ _ _ => trivial) (fun _ _ _ => trivial)
  obtain ⟨⟨hinv, -⟩, hframes⟩ := k.run (Between.empty trivial)
    (h.mono fun _ e _ => by cases e <;> trivial)
  refine ⟨hinv, fun hempty => ?_⟩
  rw [hempty] at hframes
  exact hframes.2

/-- Outside `handleRead` the ordered set holds exactly the expirations of the owned timers, and exactly the
    owned timers wait. While callbacks run, the owned timers are the waiting ones and those of the expired
    batch, and no timer is both. No assert fails. -/
theorem containers_agree {es : List (Reentrant.Event Op Top)} {c : Config TimerLoop Int}
    (h : system.stepper.Run (fun _ _ => True) ⟨{}, []⟩ es c) :
    let q := c.state.queue
    (c.frames = [] →
      (∀ e, e ∈ q.timers ↔ ∃ t, q.timerOwners e.sequence = some t ∧ t.expiration = e.expiration) ∧
      (∀ n, n ∈ q.activeTimers ↔ (q.timerOwners n).isSome)) ∧
    (∀ n, (q.timerOwners n).isSome ↔ n ∈ q.activeTimers ∨ n ∈ q.batch.map (·.sequence)) ∧
    (∀ n ∈ q.activeTimers, n ∉ q.batch.map (·.sequence)) ∧
    q.failed = [] := by
  obtain ⟨hinv, hbatch⟩ := Inv.of_run h
  refine ⟨fun hempty => ?_, hinv.rep.keys, hinv.rep.disjoint, hinv.rep.failed⟩
  have hrep : Rep c.state.queue [] := hbatch hempty ▸ hinv.rep
  have hkeys : ∀ n, n ∈ c.state.queue.activeTimers ↔ (c.state.queue.timerOwners n).isSome := by
    intro n
    rw [hrep.keys n, List.map_nil]
    exact (or_iff_left List.not_mem_nil).symm
  refine ⟨fun e => ?_, hkeys⟩
  rw [hrep.timers e, hkeys]
  refine and_iff_right_of_imp ?_
  rintro ⟨t, ht, -⟩
  exact Option.isSome_of_eq_some ht

/-- Two timers expire together. The callback of the first cancels itself and the other one, which is in the
    same batch, and adds a third. -/
theorem containers_agree_reentrant :
    ∃ c, system.stepper.Run (fun _ _ => True) ⟨{}, []⟩
        [.call (.addTimer 10 0 0), .call (.addTimer 10 5 0), .top (.handleRead 20 21), .call (.cancel 1),
          .call (.cancel 2), .call (.addTimer 30 0 22)] c ∧
      c.state.queue.batch = [⟨10, 1⟩, ⟨10, 2⟩] ∧ c.state.queue.activeTimers.toList = [3] ∧
      (∀ n, (c.state.queue.timerOwners n).isSome ↔ n ∈ c.state.queue.activeTimers ∨
        n ∈ c.state.queue.batch.map (·.sequence)) :=
  Stepper.Run.replay rfl fun run => ⟨rfl, rfl, (containers_agree run).2.1⟩

end TimerLoop
end Muduo
