import Mathlib.Algebra.Order.Group.Basic
import Mathlib.Data.List.Pairwise
import Mathlib.Tactic.Tauto

/-! # Clocks that are shifted

A clock shows the moment plus an offset, and the offset changes at some moments. A shift to a smaller offset makes the
clock show some times twice, one to a larger offset makes it skip some; these times are the window of the shift. If the
windows are apart, then no time is shown more than twice. -/

namespace Lib
variable {α : Type*}

/-- From `moment` on, the offset is `offset`. -/
structure Shift (α : Type*) where
  moment : α
  offset : α

/-- The time with one offset, from `start` on until before `finish`; none where there is no bound. -/
structure Stretch (α : Type*) where
  start : Option α
  finish : Option α
  offset : α

namespace Stretch
variable [LinearOrder α] {s : Stretch α} {t l : α}

def Covers (s : Stretch α) (t : α) : Prop := (∀ a ∈ s.start, a ≤ t) ∧ ∀ b ∈ s.finish, t < b

instance (s : Stretch α) (t : α) : Decidable (s.Covers t) :=
  inferInstanceAs (Decidable ((∀ a ∈ s.start, a ≤ t) ∧ ∀ b ∈ s.finish, t < b))

variable [Sub α]

/-- The clock shows `l` at some moment of the stretch. -/
def Shows (s : Stretch α) (l : α) : Prop := s.Covers (l - s.offset)

instance (s : Stretch α) (l : α) : Decidable (s.Shows l) := inferInstanceAs (Decidable (s.Covers (l - s.offset)))

/-- `l` is skipped between the two: the first ends before the clock shows it, and the second begins later. -/
def Skips (s s' : Stretch α) (l : α) : Prop :=
  (∃ b ∈ s.finish, b ≤ l - s.offset) ∧ ∃ a ∈ s'.start, l - s'.offset < a

instance (s s' : Stretch α) (l : α) : Decidable (s.Skips s' l) :=
  inferInstanceAs (Decidable ((∃ b ∈ s.finish, b ≤ l - s.offset) ∧ ∃ a ∈ s'.start, l - s'.offset < a))

end Stretch

/-! ## The stretches between shifts -/

section
variable {start : Option α} {offset : α} {s : Shift α} {shifts : List (Shift α)} {x y : Stretch α}

/-- The stretches from `start` on, where the offset is `offset` before the first shift. -/
def stretchesFrom (start : Option α) (offset : α) : List (Shift α) → List (Stretch α)
  | [] => [⟨start, none, offset⟩]
  | s :: shifts => ⟨start, some s.moment, offset⟩ :: stretchesFrom (some s.moment) s.offset shifts

/-- Each stretch with the next. -/
def neighbours (l : List (Stretch α)) : List (Stretch α × Stretch α) := l.zip l.tail

theorem stretchesFrom_eq_cons (start : Option α) (offset : α) (shifts : List (Shift α)) :
    ∃ finish rest, stretchesFrom start offset shifts = ⟨start, finish, offset⟩ :: rest := by
  cases shifts with
  | nil => exact ⟨none, [], rfl⟩
  | cons s shifts => exact ⟨some s.moment, _, rfl⟩

/-- The first two stretches are neighbours, and so are those behind them. -/
theorem neighbours_cons (start : Option α) (offset : α) (s : Shift α) (shifts : List (Shift α)) :
    ∃ finish, neighbours (stretchesFrom start offset (s :: shifts)) =
      (⟨start, some s.moment, offset⟩, ⟨some s.moment, finish, s.offset⟩) ::
        neighbours (stretchesFrom (some s.moment) s.offset shifts) := by
  obtain ⟨finish, rest, heq⟩ := stretchesFrom_eq_cons (some s.moment) s.offset shifts
  refine ⟨finish, ?_⟩
  rw [stretchesFrom, heq]
  rfl

theorem meet_of_neighbours (h : (x, y) ∈ neighbours (stretchesFrom start offset shifts)) :
    ∃ m, x.finish = some m ∧ y.start = some m := by
  induction shifts generalizing start offset with
  | nil => cases h
  | cons s shifts ih =>
    obtain ⟨finish, heq⟩ := neighbours_cons start offset s shifts
    rw [heq] at h
    rcases List.mem_cons.mp h with hfirst | h
    · cases hfirst
      exact ⟨s.moment, rfl, rfl⟩
    · exact ih h

variable [LinearOrder α] {t t' : α}

/-- The stretch that has the moment `t`. -/
def stretchAtFrom (start : Option α) (offset : α) : List (Shift α) → α → Stretch α
  | [], _ => ⟨start, none, offset⟩
  | s :: shifts, t =>
    if t < s.moment then ⟨start, some s.moment, offset⟩ else stretchAtFrom (some s.moment) s.offset shifts t

/-- The shifts are in order and behind `start`. -/
def Ordered (start : Option α) (shifts : List (Shift α)) : Prop :=
  (start.toList ++ shifts.map (·.moment)).Pairwise (· < ·)

instance (start : Option α) (shifts : List (Shift α)) : Decidable (Ordered start shifts) :=
  inferInstanceAs (Decidable ((start.toList ++ shifts.map (·.moment)).Pairwise (· < ·)))

theorem Ordered.tail (h : Ordered start (s :: shifts)) : Ordered (some s.moment) shifts :=
  h.sublist (List.sublist_append_right _ _)

theorem Ordered.lt (h : Ordered start (s :: shifts)) : ∀ a ∈ start, a < s.moment := by
  rintro a rfl
  exact (List.pairwise_cons.mp h).1 _ List.mem_cons_self

theorem stretchAtFrom_mem : stretchAtFrom start offset shifts t ∈ stretchesFrom start offset shifts := by
  induction shifts generalizing start offset with
  | nil => exact List.mem_cons_self
  | cons s shifts ih =>
    rw [stretchAtFrom]
    split
    · exact List.mem_cons_self
    · exact List.mem_cons_of_mem _ ih

theorem stretchAtFrom_covers (h : ∀ a ∈ start, a ≤ t) : (stretchAtFrom start offset shifts t).Covers t := by
  induction shifts generalizing start offset with
  | nil => exact ⟨h, fun _ hb => nomatch hb⟩
  | cons s shifts ih =>
    rw [stretchAtFrom]
    split
    · rename_i hlt
      refine ⟨h, ?_⟩
      rintro _ ⟨⟩
      exact hlt
    · rename_i hge
      refine ih ?_
      rintro _ ⟨⟩
      exact not_lt.mp hge

/-- What a stretch covers is not before `start`. -/
theorem le_of_covers (hordered : Ordered start shifts) (hx : x ∈ stretchesFrom start offset shifts) (h : x.Covers t) :
    ∀ a ∈ start, a ≤ t := by
  induction shifts generalizing start offset with
  | nil =>
    cases List.mem_singleton.mp hx
    exact h.1
  | cons s shifts ih =>
    rcases List.mem_cons.mp hx with rfl | hx
    · exact h.1
    · intro a ha
      exact (hordered.lt a ha).le.trans (ih hordered.tail hx _ rfl)

/-- The stretches are one behind the other. -/
theorem pairwise_stretchesFrom (h : Ordered start shifts) :
    (stretchesFrom start offset shifts).Pairwise fun x y => ∀ t t', x.Covers t → y.Covers t' → t < t' := by
  induction shifts generalizing start offset with
  | nil => exact List.pairwise_singleton _ _
  | cons s shifts ih =>
    refine List.pairwise_cons.mpr ⟨?_, ih h.tail⟩
    intro y hy t t' ht ht'
    exact (ht.2 _ rfl).trans_le (le_of_covers h.tail hy ht' _ rfl)

/-- A stretch that covers a moment is the one that has it. -/
theorem eq_stretchAtFrom (h : Ordered start shifts) (hx : x ∈ stretchesFrom start offset shifts) (ht : x.Covers t) :
    x = stretchAtFrom start offset shifts t := by
  induction shifts generalizing start offset with
  | nil => exact List.mem_singleton.mp hx
  | cons s shifts ih =>
    rw [stretchAtFrom]
    rcases List.mem_cons.mp hx with rfl | hx
    · rw [if_pos (ht.2 _ rfl)]
    · rw [if_neg (not_lt.mpr (le_of_covers h.tail hx ht _ rfl))]
      exact ih h.tail hx

end

/-! ## Times that are skipped -/

section
variable [LinearOrder α] [Sub α] {start : Option α} {offset l : α} {shifts : List (Shift α)}

/-- If a stretch has begun, and neither it nor a later one shows a time, then two neighbours skip the time. -/
theorem exists_skips (hstart : ∀ a ∈ start, a ≤ l - offset)
    (h : ∀ x ∈ stretchesFrom start offset shifts, ¬x.Shows l) :
    ∃ p ∈ neighbours (stretchesFrom start offset shifts), p.1.Skips p.2 l := by
  induction shifts generalizing start offset with
  | nil => exact absurd ⟨hstart, fun _ hb => nomatch hb⟩ (h _ List.mem_cons_self)
  | cons s shifts ih =>
    obtain ⟨finish, heq⟩ := neighbours_cons start offset s shifts
    have hended : s.moment ≤ l - offset := by
      by_contra hlt
      refine h _ List.mem_cons_self ⟨hstart, ?_⟩
      rintro _ ⟨⟩
      exact not_le.mp hlt
    rw [heq]
    by_cases hbegun : s.moment ≤ l - s.offset
    · have hnext : ∀ a ∈ some s.moment, a ≤ l - s.offset := by
        rintro _ ⟨⟩
        exact hbegun
      obtain ⟨p, hp, hskips⟩ := ih hnext fun x hx => h x (List.mem_cons_of_mem _ hx)
      exact ⟨p, List.mem_cons_of_mem _ hp, hskips⟩
    · exact ⟨_, List.mem_cons_self, ⟨s.moment, rfl, hended⟩, s.moment, rfl, not_le.mp hbegun⟩

end

/-! ## Times that are shown twice -/

/-- The times from `lo` on until before `hi`. -/
structure Window (α : Type*) where
  lo : α
  hi : α

namespace Window
variable [LinearOrder α] {l : α}

def Has (w : Window α) (l : α) : Prop := w.lo ≤ l ∧ l < w.hi

instance (w : Window α) (l : α) : Decidable (w.Has l) := inferInstanceAs (Decidable (w.lo ≤ l ∧ l < w.hi))

/-- No time is in both. -/
def Apart (w w' : Window α) : Prop := min w.hi w'.hi ≤ max w.lo w'.lo

instance (w w' : Window α) : Decidable (w.Apart w') := inferInstanceAs (Decidable (min w.hi w'.hi ≤ max w.lo w'.lo))

theorem Apart.not_has {w w' : Window α} (h : w.Apart w') (hl : w.Has l) : ¬w'.Has l := by
  intro hl'
  have hlt : l < l := (lt_min hl.2 hl'.2).trans_le (h.trans (max_le hl.1 hl'.1))
  exact lt_irrefl l hlt

theorem countP_has_le_one {ws : List (Window α)} (h : ws.Pairwise Apart) : ws.countP (·.Has l) ≤ 1 := by
  induction ws with
  | nil => exact Nat.zero_le 1
  | cons w ws ih =>
    obtain ⟨hw, hws⟩ := List.pairwise_cons.mp h
    by_cases hl : w.Has l
    · have hnone : ws.countP (·.Has l) = 0 := by
        rw [List.countP_eq_zero]
        intro w' hw' hl'
        exact (hw w' hw').not_has hl (of_decide_eq_true hl')
      rw [List.countP_cons, hnone, if_pos (decide_eq_true hl)]
    · rw [List.countP_cons, if_neg fun h => hl (of_decide_eq_true h)]
      exact ih hws

end Window

/-- The times that the shifts skip or make shown twice. -/
def windows [Add α] [LinearOrder α] (offset : α) : List (Shift α) → List (Window α)
  | [] => []
  | s :: shifts => ⟨s.moment + min offset s.offset, s.moment + max offset s.offset⟩ :: windows s.offset shifts

section
variable [AddCommGroup α] [LinearOrder α] [IsOrderedAddMonoid α]
variable {start : Option α} {offset l m o o' : α} {shifts : List (Shift α)}

/-- A time is in the window of a shift if it is before the shift by one of the offsets only. -/
theorem has_window : (⟨m + min o o', m + max o o'⟩ : Window α).Has l ↔ ¬(m ≤ l - o ↔ m ≤ l - o') := by
  rw [Window.Has, le_sub_iff_add_le, le_sub_iff_add_le]
  rcases le_total o o' with h | h
  · have hmono : m + o' ≤ l → m + o ≤ l := (add_le_add_right h m).trans
    rw [min_eq_left h, max_eq_right h, ← not_le]
    tauto
  · have hmono : m + o ≤ l → m + o' ≤ l := (add_le_add_right h m).trans
    rw [min_eq_right h, max_eq_left h, ← not_le]
    tauto

/-- A time is shown once, and once more for every window that has it. -/
theorem countP_shows_le (h : Ordered start shifts) :
    (stretchesFrom start offset shifts).countP (·.Shows l) ≤
      (if ∀ a ∈ start, a ≤ l - offset then 1 else 0) + (windows offset shifts).countP (·.Has l) := by
  induction shifts generalizing start offset with
  | nil =>
    have hshows : (⟨start, none, offset⟩ : Stretch α).Shows l ↔ ∀ a ∈ start, a ≤ l - offset :=
      ⟨fun h => h.1, fun h => ⟨h, fun _ hb => nomatch hb⟩⟩
    simp [stretchesFrom, windows, List.countP_cons, hshows]
  | cons s shifts ih =>
    have hshows : (⟨start, some s.moment, offset⟩ : Stretch α).Shows l ↔
        (∀ a ∈ start, a ≤ l - offset) ∧ ¬s.moment ≤ l - offset := by
      rw [Stretch.Shows, Stretch.Covers, not_le]
      simp only [Option.mem_some_iff, forall_eq']
    have hbegun : s.moment ≤ l - offset → ∀ a ∈ start, a ≤ l - offset :=
      fun hle a ha => (h.lt a ha).le.trans hle
    have hrest : (stretchesFrom (some s.moment) s.offset shifts).countP (·.Shows l) ≤
        (if ∀ a ∈ some s.moment, a ≤ l - s.offset then 1 else 0) + (windows s.offset shifts).countP (·.Has l) := ih h.tail
    simp only [Option.mem_some_iff, forall_eq'] at hrest
    simp only [stretchesFrom, windows, List.countP_cons, hshows, has_window, decide_eq_true_eq]
    -- The next stretch has begun or not when this one ends; if only one of the two, then the window has the time.
    by_cases hended : s.moment ≤ l - offset
    · rw [if_pos (hbegun hended)]
      by_cases hnext : s.moment ≤ l - s.offset
      · simp only [hended, hnext, not_true_eq_false, and_false, ↓reduceIte] at hrest ⊢
        exact hrest
      · simp only [hended, hnext, not_true_eq_false, and_false, iff_false, not_false_eq_true, ↓reduceIte] at hrest ⊢
        omega
    · by_cases hnext : s.moment ≤ l - s.offset
      · simp only [hended, hnext, not_false_eq_true, and_true, iff_true, ↓reduceIte] at hrest ⊢
        omega
      · simp only [hended, hnext, not_false_eq_true, not_true_eq_false, and_true, ↓reduceIte] at hrest ⊢
        omega

end

/-! ## The clock -/

structure Timeline (α : Type*) [LinearOrder α] where
  /-- The offset before the first shift. -/
  offset : α
  shifts : List (Shift α)
  ordered : Ordered none shifts

namespace Timeline

section
variable [LinearOrder α]

def stretches (c : Timeline α) : List (Stretch α) := stretchesFrom none c.offset c.shifts

def stretchAt (c : Timeline α) (t : α) : Stretch α := stretchAtFrom none c.offset c.shifts t

/-- What the clock shows at the moment `t`. -/
def clock [Add α] (c : Timeline α) (t : α) : α := t + (c.stretchAt t).offset

/-- The stretches in which the clock shows `l`, in their order. -/
def showing [Sub α] (c : Timeline α) (l : α) : List (Stretch α) := c.stretches.filter (·.Shows l)

end

variable [AddCommGroup α] [LinearOrder α] {c : Timeline α} {t l : α} {x y : Stretch α}

theorem mem_showing : x ∈ c.showing l ↔ x ∈ c.stretches ∧ x.Shows l := by
  rw [showing, List.mem_filter, decide_eq_true_iff]

theorem stretchAt_mem_showing (c : Timeline α) (t : α) : c.stretchAt t ∈ c.showing (c.clock t) := by
  refine mem_showing.mpr ⟨stretchAtFrom_mem, ?_⟩
  rw [Stretch.Shows, clock, add_sub_cancel_right]
  exact stretchAtFrom_covers fun _ ha => nomatch ha

theorem clock_of_mem_showing (h : x ∈ c.showing l) : c.clock (l - x.offset) = l := by
  obtain ⟨hx, hshows⟩ := mem_showing.mp h
  rw [clock, stretchAt, ← eq_stretchAtFrom c.ordered hx hshows, sub_add_cancel]

/-- At which moments the clock shows a time. -/
theorem clock_eq_iff : c.clock t = l ↔ ∃ x ∈ c.showing l, t = l - x.offset := by
  constructor
  · rintro rfl
    exact ⟨_, c.stretchAt_mem_showing t, (add_sub_cancel_right _ _).symm⟩
  · rintro ⟨x, hx, rfl⟩
    exact clock_of_mem_showing hx

/-- The moments of the showings are in the order of the stretches. -/
theorem pairwise_showing (c : Timeline α) (l : α) :
    (c.showing l).Pairwise fun x y => l - x.offset < l - y.offset := by
  have hstretches : c.stretches.Pairwise fun x y => ∀ t t', x.Covers t → y.Covers t' → t < t' :=
    pairwise_stretchesFrom c.ordered
  refine (hstretches.sublist List.filter_sublist).imp_of_mem ?_
  intro x y hx hy h
  exact h _ _ (mem_showing.mp hx).2 (mem_showing.mp hy).2

/-- A time that is not shown is skipped between two stretches. -/
theorem exists_skips_of_showing (h : c.showing l = []) : ∃ p ∈ neighbours c.stretches, p.1.Skips p.2 l := by
  refine exists_skips (fun _ ha => nomatch ha) fun x hx hshows => ?_
  have hmem : x ∈ c.showing l := mem_showing.mpr ⟨hx, hshows⟩
  rw [h] at hmem
  cases hmem

theorem lt_of_skips (hp : (x, y) ∈ neighbours c.stretches) (h : x.Skips y l) :
    l - y.offset < l - x.offset := by
  obtain ⟨m, hx, hy⟩ := meet_of_neighbours hp
  obtain ⟨⟨b, hb, hended⟩, a, ha, hbegun⟩ := h
  cases hx.symm.trans hb
  cases hy.symm.trans ha
  exact hbegun.trans_le hended

theorem length_showing_le [IsOrderedAddMonoid α] (h : (windows c.offset c.shifts).Pairwise Window.Apart) (l : α) :
    (c.showing l).length ≤ 2 := by
  have hcount : c.stretches.countP (·.Shows l) ≤ _ + (windows c.offset c.shifts).countP (·.Has l) :=
    countP_shows_le c.ordered
  have hwindows : (windows c.offset c.shifts).countP (·.Has l) ≤ 1 := Window.countP_has_le_one h
  rw [if_pos fun _ ha => nomatch ha] at hcount
  rw [showing, ← List.countP_eq_length_filter]
  exact hcount.trans (Nat.add_le_add_left hwindows 1)

end Timeline
end Lib
