/-! # Incremental readers

A reader looks at the input it has and waits for more, uses a part of it and goes on, or stops. Its decisions may
not change when more input arrives behind what it has seen. It then does not matter in which pieces the input
arrives: `Reader.feed_eq`. -/

namespace Lib

/-- What a reader does with the input it has. -/
inductive Outcome (S R : Type) where
  | wait
  /-- The first `n` elements are used, and the reader goes on. -/
  | take (n : Nat) (t : S)
  /-- The reader stops; nothing is used. -/
  | stop (t : S) (r : R)

structure Reader (α S R : Type) where
  next : S → List α → Outcome S R
  take_bounds {s t : S} {l : List α} {n : Nat} : next s l = .take n t → 0 < n ∧ n ≤ l.length
  /-- What is decided does not change when more input arrives. -/
  next_append {s : S} {l : List α} (m : List α) : next s l ≠ .wait → next s (l ++ m) = next s l
  /-- Stopping once more changes nothing. -/
  stop_again {s t : S} {l : List α} {r : R} : next s l = .stop t r → next t l = .stop t r

/-- Where a reader has come to: its state, the input it has not used, and the result if it stopped. -/
structure Reading (α S R : Type) where
  state : S
  rest : List α
  result : Option R

namespace Reader
variable {α S R : Type} (d : Reader α S R) {s t : S} {l m : List α} {n : Nat} {r : R}

def runFuel : Nat → S → List α → Reading α S R
  | 0, s, l => ⟨s, l, none⟩
  | k + 1, s, l =>
    match d.next s l with
    | .wait => ⟨s, l, none⟩
    | .take n t => runFuel k t (l.drop n)
    | .stop t r => ⟨t, l, some r⟩

/-- The reader goes on until it waits or stops. Each step before that uses some input. -/
def run (s : S) (l : List α) : Reading α S R := d.runFuel (l.length + 1) s l

variable {d}

theorem length_drop_lt (h : d.next s l = .take n t) : (l.drop n).length < l.length := by
  have := d.take_bounds h
  rw [List.length_drop]
  omega

/-- Induction along a run. -/
theorem induct {P : S → List α → Prop} (wait : ∀ {s l}, d.next s l = .wait → P s l)
    (take : ∀ {s l n t}, d.next s l = .take n t → P t (l.drop n) → P s l)
    (stop : ∀ {s l t r}, d.next s l = .stop t r → P s l) (s : S) (l : List α) : P s l := by
  generalize hk : l.length = k
  induction k using Nat.strongRecOn generalizing s l with
  | ind k ih =>
    match hnext : d.next s l with
    | .wait => exact wait hnext
    | .stop t r => exact stop hnext
    | .take n t =>
      have hlt := length_drop_lt hnext
      rw [hk] at hlt
      exact take hnext (ih _ hlt t _ rfl)

/-- More fuel than there is input changes nothing. -/
theorem runFuel_eq_run {k : Nat} (h : l.length < k) : d.runFuel k s l = d.run s l := by
  unfold run
  generalize hj : l.length + 1 = j
  have hlt : l.length < j := by omega
  clear hj
  induction k generalizing s l j with
  | zero => omega
  | succ k ih =>
    cases j with
    | zero => omega
    | succ j =>
      simp only [runFuel]
      split
      · rfl
      · rename_i n t hnext
        have := length_drop_lt hnext
        exact ih (by omega) j (by omega)
      · rfl

theorem run_wait (h : d.next s l = .wait) : d.run s l = ⟨s, l, none⟩ := by
  simp only [run, runFuel, h]

theorem run_stop (h : d.next s l = .stop t r) : d.run s l = ⟨t, l, some r⟩ := by
  simp only [run, runFuel, h]

theorem run_take (h : d.next s l = .take n t) : d.run s l = d.run t (l.drop n) := by
  rw [run, runFuel, h]
  exact runFuel_eq_run (length_drop_lt h)

/-! ## Input in pieces -/

theorem take_append (h : d.next s l = .take n t) (m : List α) : d.next s (l ++ m) = .take n t := by
  rw [d.next_append m (by simp [h]), h]

theorem stop_append (h : d.next s l = .stop t r) (m : List α) : d.next s (l ++ m) = .stop t r := by
  rw [d.next_append m (by simp [h]), h]

theorem run_append (s : S) (l m : List α) :
    d.run s (l ++ m) = d.run (d.run s l).state ((d.run s l).rest ++ m) := by
  induction s, l using d.induct with
  | wait h => rw [run_wait h]
  | take h ih =>
    rw [run_take h, run_take (take_append h m), ← ih, List.drop_append_of_le_length (d.take_bounds h).2]
  | stop h => rw [run_stop h, run_stop (stop_append h m), run_stop (stop_append (d.stop_again h) m)]

/-- One more piece of input arrives. -/
def resume (d : Reader α S R) (q : Reading α S R) (piece : List α) : Reading α S R := d.run q.state (q.rest ++ piece)

/-- However the input is cut into pieces, the reader comes to where it comes with all of it at once. -/
theorem feed_eq (s : S) (l : List α) (pieces : List (List α)) :
    pieces.foldl d.resume (d.run s l) = d.run s (l ++ pieces.flatten) := by
  induction pieces generalizing l with
  | nil => simp
  | cons piece pieces ih =>
    rw [List.foldl_cons, resume, ← run_append, ih, List.flatten_cons, List.append_assoc]

/-! ## Where a run ends -/

/-- A reading at which the reader waits or has stopped. -/
def Settled (d : Reader α S R) (q : Reading α S R) : Prop :=
  match q.result with
  | none => d.next q.state q.rest = .wait
  | some r => d.next q.state q.rest = .stop q.state r

theorem Settled.stop {q : Reading α S R} (h : d.Settled q) (hr : q.result = some r) :
    d.next q.state q.rest = .stop q.state r := by
  rwa [Settled, hr] at h

theorem settled_run (s : S) (l : List α) : d.Settled (d.run s l) := by
  induction s, l using d.induct with
  | wait h =>
    rw [run_wait h]
    exact h
  | take h ih => rwa [run_take h]
  | stop h =>
    rw [run_stop h]
    exact d.stop_again h

/-- A reader that has stopped stays where it is. -/
theorem resume_of_stop {q : Reading α S R} (h : d.next q.state q.rest = .stop q.state r) (piece : List α) :
    d.resume q piece = ⟨q.state, q.rest ++ piece, some r⟩ :=
  run_stop (stop_append h piece)

end Reader
end Lib
