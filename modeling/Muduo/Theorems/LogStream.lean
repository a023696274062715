import Mathlib.Data.List.Induction
import Muduo.LogStream

/-! # What a stream keeps

An insertion appends the text of the value, cut to the room that is left, or it skips the value. Only numbers and
pointers are skipped, and only near the end. A text that is cut fills the stream, so nothing is kept behind it; but
behind a number that is skipped a shorter text is kept. Whether a stream loses values only at its end can be read off
the room and the texts. -/

namespace Muduo.LogStream
variable {s : LogStream} {str : List Char} {value : Insertion} {values : List Insertion}

/-! ## Insertions -/

/-- The whole text of a value. -/
def Insertion.text : Insertion → List Char
  | .bool v => if v then ['1'] else ['0']
  | .char v => [v]
  | .integer v => (toString v).toList
  | .floating rendered => rendered
  | .pointer rendered => rendered
  | .cString str => str.getD "(null)".toList
  | .stringView str => str
  | .format rendered => rendered

/-- So much room is not enough for a number or a pointer. -/
def Insertion.Skipped (room : Nat) : Insertion → Prop
  | .integer v => room < kMaxNumericSize ∨ room < (toString v).toList.length
  | .floating _ => room < kMaxNumericSize
  | .pointer _ => room < kMaxNumericSize
  | _ => False

instance (room : Nat) : ∀ value : Insertion, Decidable (value.Skipped room)
  | .integer v => inferInstanceAs (Decidable (room < kMaxNumericSize ∨ room < (toString v).toList.length))
  | .floating _ | .pointer _ => inferInstanceAs (Decidable (room < kMaxNumericSize))
  | .bool _ | .char _ | .cString _ | .stringView _ | .format _ => inferInstanceAs (Decidable False)

theorem append_take : s.append (str.take s.avail) = s.append str := by
  simp only [append, List.take_take, Nat.min_self]

theorem append_of_full (h : s.avail = 0) : s.append str = s := by
  simp only [append, h, List.take_zero, List.append_nil]

theorem insert_of_skipped (h : value.Skipped s.avail) : s.insert value = s := by
  cases value with
  | integer v =>
    rw [insert, formatInteger]
    rcases h with hroom | hdigits
    · exact if_neg (Nat.not_le.mpr hroom)
    · rw [if_neg (Nat.not_le.mpr hdigits)]
      exact ite_self s
  | floating rendered => exact if_neg (Nat.not_le.mpr h)
  | pointer rendered => exact if_neg (Nat.not_le.mpr h)
  | _ => exact h.elim

theorem insert_of_not_skipped (h : ¬value.Skipped s.avail) : s.insert value = s.append value.text := by
  cases value with
  | bool v => rfl
  | char v => rfl
  | integer v =>
    obtain ⟨hroom, hdigits⟩ := not_or.mp h
    rw [insert, formatInteger, if_pos (Nat.not_lt.mp hroom), if_pos (Nat.not_lt.mp hdigits)]
    rfl
  | floating rendered =>
    rw [insert, formatFloating, if_pos (Nat.not_lt.mp h), append_take]
    exact ite_self _
  | pointer rendered => exact if_pos (Nat.not_lt.mp h)
  | cString str => cases str <;> rfl
  | stringView str => rfl
  | format rendered =>
    rw [insert, format, append_take]
    split
    · rename_i hfull
      exact (append_of_full hfull).symm
    · rfl

/-- An insertion appends what there is room for, if anything. -/
theorem insert_cases (s : LogStream) (value : Insertion) :
    value.Skipped s.avail ∧ s.insert value = s ∨ ¬value.Skipped s.avail ∧ s.insert value = s.append value.text := by
  by_cases h : value.Skipped s.avail
  · exact .inl ⟨h, insert_of_skipped h⟩
  · exact .inr ⟨h, insert_of_not_skipped h⟩

theorem data_append (h : s.data.length + str.length ≤ kSmallBuffer) : (s.append str).data = s.data ++ str := by
  have hroom : str.length ≤ s.avail := by
    unfold avail
    omega
  simp only [append, List.take_of_length_le hroom]

theorem head_append : s.data <+: (s.append str).data := List.prefix_append _ _

/-- Nothing that is in a stream is changed by an insertion. -/
theorem head_insert (value : Insertion) : s.data <+: (s.insert value).data := by
  rcases insert_cases s value with ⟨-, h⟩ | ⟨-, h⟩
  · exact ⟨[], by rw [h, List.append_nil]⟩
  · rw [h]
    exact head_append

theorem head_foldl_insert (values : List Insertion) : s.data <+: (values.foldl insert s).data := by
  induction values generalizing s with
  | nil => exact List.prefix_refl _
  | cons value values ih => exact (head_insert value).trans ih

theorem not_skipped {room : Nat} (h : value.text.length + kMaxNumericSize ≤ room) : ¬value.Skipped room := by
  cases value with
  | integer v =>
    simp only [Insertion.Skipped, Insertion.text] at h ⊢
    omega
  | floating rendered =>
    simp only [Insertion.Skipped]
    omega
  | pointer rendered =>
    simp only [Insertion.Skipped]
    omega
  | _ => exact id

/-- A value is written in full where a number still has its room behind it. -/
theorem data_insert (h : s.data.length + value.text.length + kMaxNumericSize ≤ kSmallBuffer) :
    (s.insert value).data = s.data ++ value.text := by
  have hroom : value.text.length + kMaxNumericSize ≤ s.avail := by
    unfold avail
    omega
  rw [insert_of_not_skipped (not_skipped hroom)]
  exact data_append (by omega)

theorem data_foldl_insert
    (h : s.data.length + (values.flatMap Insertion.text).length + kMaxNumericSize ≤ kSmallBuffer) :
    (values.foldl insert s).data = s.data ++ values.flatMap Insertion.text := by
  induction values generalizing s with
  | nil => exact (List.append_nil _).symm
  | cons value values ih =>
    rw [List.flatMap_cons, List.length_append] at h
    have hdata : (s.insert value).data = s.data ++ value.text := data_insert (by omega)
    rw [List.foldl_cons, ih (by rw [hdata, List.length_append]; omega), hdata, List.flatMap_cons, List.append_assoc]

/-! ## Streams that are full -/

theorem insert_of_full (h : s.avail = 0) : s.insert value = s := by
  rcases insert_cases s value with ⟨-, heq⟩ | ⟨-, heq⟩
  · exact heq
  · rw [heq, append_of_full h]

theorem foldl_insert_of_full (h : s.avail = 0) : values.foldl insert s = s := by
  induction values with
  | nil => rfl
  | cons value values ih => rw [List.foldl_cons, insert_of_full h, ih]

theorem avail_append_of_le (h : kSmallBuffer ≤ s.data.length + str.length) : (s.append str).avail = 0 := by
  have hlen := s.length_le
  simp only [avail, append, List.length_append, List.length_take]
  omega

/-- A text that is cut fills the stream. -/
theorem append_cases (s : LogStream) (str : List Char) :
    (s.append str).data = s.data ++ str ∨ (s.append str).data <+: s.data ++ str ∧ (s.append str).avail = 0 := by
  by_cases hfits : s.data.length + str.length ≤ kSmallBuffer
  · exact .inl (data_append hfits)
  · exact .inr ⟨List.prefix_append_right_inj _ |>.mpr (List.take_prefix _ _), avail_append_of_le (Nat.le_of_not_le hfits)⟩

/-! ## Values that are lost -/

/-- Nothing of a value is kept in so much room: there is none, the value has no text, or it is skipped. -/
def Insertion.Dropped (room : Nat) (value : Insertion) : Prop := room = 0 ∨ value.text = [] ∨ value.Skipped room

instance (room : Nat) (value : Insertion) : Decidable (value.Dropped room) := inferInstanceAs (Decidable (_ ∨ _ ∨ _))

theorem ext_data {t : LogStream} (h : s.data = t.data) : s = t := by
  cases s
  cases t
  cases h
  rfl

theorem insert_of_dropped (h : value.Dropped s.avail) : s.insert value = s := by
  rcases h with hfull | hempty | hskipped
  · exact insert_of_full hfull
  · rcases insert_cases s value with ⟨-, heq⟩ | ⟨-, heq⟩
    · exact heq
    · rw [heq, hempty]
      exact ext_data (by simp only [append, List.take_nil, List.append_nil])
  · exact insert_of_skipped hskipped

theorem dropped_of_insert (h : (s.insert value).data = s.data) : value.Dropped s.avail := by
  rcases insert_cases s value with ⟨hskipped, -⟩ | ⟨-, heq⟩
  · exact .inr (.inr hskipped)
  · rw [heq] at h
    have hnone : value.text.take s.avail = [] := List.append_right_eq_self.mp h
    exact (List.take_eq_nil_iff.mp hnone).imp_right .inl

theorem foldl_insert_of_dropped (h : ∀ value ∈ values, value.Dropped s.avail) : values.foldl insert s = s := by
  induction values with
  | nil => rfl
  | cons value values ih =>
    obtain ⟨hvalue, hvalues⟩ := List.forall_mem_cons.mp h
    rw [List.foldl_cons, insert_of_dropped hvalue]
    exact ih hvalues

theorem dropped_of_foldl_insert (h : (values.foldl insert s).data = s.data) : ∀ value ∈ values, value.Dropped s.avail := by
  induction values with
  | nil => exact fun _ hmem => absurd hmem List.not_mem_nil
  | cons value values ih =>
    rw [List.foldl_cons] at h
    -- the stream only grows, so the first insertion has added nothing either
    have hback : (s.insert value).data <+: s.data := h ▸ head_foldl_insert values
    have hvalue : (s.insert value).data = s.data := hback.eq_of_length_le (head_insert value).length_le
    rw [ext_data hvalue] at h
    exact List.forall_mem_cons.mpr ⟨dropped_of_insert hvalue, ih h⟩

/-! ## Truncation -/

/-- Behind a value that is skipped nothing is kept of any value, unless it has no text. The room is what is left before
the values. -/
inductive SkipsLast : Nat → List Insertion → Prop where
  | nil (room : Nat) : SkipsLast room []
  /-- A text that is written takes its length of the room, or all of it. -/
  | written {room : Nat} {value : Insertion} {values : List Insertion} (hkept : value.Skipped room → value.text = [])
      (hrest : SkipsLast (room - value.text.length) values) : SkipsLast room (value :: values)
  | skipped {room : Nat} {value : Insertion} {values : List Insertion} (hskipped : value.Skipped room)
      (hrest : ∀ later ∈ values, later.Dropped room) : SkipsLast room (value :: values)

theorem avail_append (s : LogStream) (str : List Char) : (s.append str).avail = s.avail - str.length := by
  simp only [avail, append, List.length_append, List.length_take]
  omega

/-- A value without a text may count as written. -/
theorem insert_of_kept (h : value.Skipped s.avail → value.text = []) : s.insert value = s.append value.text := by
  rcases insert_cases s value with ⟨hskipped, heq⟩ | ⟨-, heq⟩
  · rw [heq, h hskipped]
    exact ext_data (by simp only [append, List.take_nil, List.append_nil])
  · exact heq

/-- At every point a stream holds the front of the texts. -/
theorem SkipsLast.front (h : SkipsLast s.avail values) (n : Nat) :
    ((values.take n).foldl insert s).data <+: s.data ++ (values.take n).flatMap Insertion.text := by
  induction values generalizing s n with
  | nil =>
    rw [List.take_nil]
    exact List.prefix_append _ _
  | cons value values ih =>
    cases n with
    | zero => exact List.prefix_append _ _
    | succ n =>
      rw [List.take_succ_cons, List.foldl_cons, List.flatMap_cons, ← List.append_assoc]
      cases h with
      | written hkept hrest =>
        rw [insert_of_kept hkept]
        rw [← avail_append] at hrest
        rcases append_cases s value.text with hwhole | ⟨hcut, hfull⟩
        · exact hwhole ▸ ih hrest n
        · rw [foldl_insert_of_full hfull]
          exact hcut.trans (List.prefix_append _ _)
      | skipped hskipped hrest =>
        have hdropped : ∀ later ∈ values.take n, later.Dropped s.avail :=
          fun later hlater => hrest later (List.mem_of_mem_take hlater)
        rw [insert_of_skipped hskipped, foldl_insert_of_dropped hdropped]
        exact (List.prefix_append _ _).trans (List.prefix_append _ _)

/-- A value that is not kept in full is the last that anything is kept of. -/
def CutsLast (s : LogStream) (values : List Insertion) : Prop :=
  ∀ before value after, values = before ++ value :: after →
    ((before ++ [value]).foldl insert s).data = (before.foldl insert s).data ++ value.text ∨
      (values.foldl insert s).data = ((before ++ [value]).foldl insert s).data

theorem cutsLast_cons : CutsLast s (value :: values) ↔
    ((s.insert value).data = s.data ++ value.text ∨ (values.foldl insert (s.insert value)).data = (s.insert value).data) ∧
      CutsLast (s.insert value) values := by
  constructor
  · intro h
    refine ⟨h [] value values rfl, ?_⟩
    intro before later after heq
    exact h (value :: before) later after (by rw [heq]; rfl)
  · rintro ⟨hfirst, hrest⟩ before later after heq
    cases before with
    | nil =>
      cases heq
      exact hfirst
    | cons head before =>
      cases heq
      exact hrest before later after rfl

theorem cutsLast_of_dropped (h : ∀ value ∈ values, value.Dropped s.avail) : CutsLast s values := by
  intro before value after heq
  rw [foldl_insert_of_dropped h]
  rw [heq, List.append_cons] at h
  rw [foldl_insert_of_dropped fun value hvalue => h value (List.mem_append_left _ hvalue)]
  exact .inr rfl

theorem SkipsLast.cutsLast (h : SkipsLast s.avail values) : CutsLast s values := by
  induction values generalizing s with
  | nil => exact fun before value after heq => absurd heq (by simp)
  | cons value values ih =>
    rw [cutsLast_cons]
    cases h with
    | written hkept hrest =>
      rw [← avail_append] at hrest
      rw [insert_of_kept hkept]
      refine ⟨(append_cases s value.text).imp_right fun hcut => ?_, ih hrest⟩
      rw [foldl_insert_of_full hcut.2]
    | skipped hskipped hrest =>
      rw [insert_of_skipped hskipped]
      exact ⟨.inr (by rw [foldl_insert_of_dropped hrest]), cutsLast_of_dropped hrest⟩

theorem CutsLast.skipsLast (h : CutsLast s values) : SkipsLast s.avail values := by
  induction values generalizing s with
  | nil => exact .nil _
  | cons value values ih =>
    obtain ⟨hfirst, hrest⟩ := cutsLast_cons.mp h
    by_cases hkept : value.Skipped s.avail → value.text = []
    · refine .written hkept ?_
      rw [← avail_append, ← insert_of_kept hkept]
      exact ih hrest
    · -- the value is lost, so it is the last that anything could be kept of
      obtain ⟨hskipped, htext⟩ := Classical.not_imp.mp hkept
      rw [insert_of_skipped hskipped] at hfirst
      rcases hfirst with hwhole | hnone
      · exact absurd (List.append_right_eq_self.mp hwhole.symm) htext
      · exact .skipped hskipped (dropped_of_foldl_insert hnone)

/-- A stream with nothing in it. -/
def fresh : LogStream := ⟨[], Nat.zero_le kSmallBuffer⟩

/-- What a new stream holds after some insertions. -/
def contents (values : List Insertion) : List Char := (values.foldl insert fresh).data

/-- A stream holds the front of the texts at every point and no more than its size, and a value that is not kept in
full is the last that anything is kept of, exactly when nothing finds room behind a number or pointer that is skipped. -/
theorem truncates_at_end (values : List Insertion) :
    SkipsLast kSmallBuffer values ↔
      (∀ n, contents (values.take n) <+: (values.take n).flatMap Insertion.text) ∧
      (∀ n, (contents (values.take n)).length ≤ kSmallBuffer) ∧
      ∀ before value after, values = before ++ value :: after →
        contents (before ++ [value]) = contents before ++ value.text ∨ contents values = contents (before ++ [value]) := by
  constructor
  · intro h
    exact ⟨SkipsLast.front (s := fresh) h, fun n => LogStream.length_le _, SkipsLast.cutsLast (s := fresh) h⟩
  · rintro ⟨-, -, hlast⟩
    exact CutsLast.skipsLast (s := fresh) hlast

/-- Nothing is skipped if the texts leave the room for a number. -/
theorem skipsLast_of_room {room : Nat} (h : (values.flatMap Insertion.text).length + kMaxNumericSize ≤ room) :
    SkipsLast room values := by
  induction values generalizing room with
  | nil => exact .nil room
  | cons value values ih =>
    rw [List.flatMap_cons, List.length_append] at h
    have hskipped : ¬value.Skipped room := not_skipped (by omega)
    exact .written (fun h => absurd h hskipped) (ih (by omega))

/-- A message, a number of milliseconds and the unit. -/
def timing (length : Nat) : List Insertion :=
  [.stringView (List.replicate length 'x'), .integer 12345, .cString (some "ms".toList)]

theorem length_timing (length : Nat) : ((timing length).flatMap Insertion.text).length = length + 7 := by
  simp only [timing, List.flatMap_cons, List.flatMap_nil, Insertion.text, List.length_append, List.length_replicate]
  rfl

/-- A message and two numbers. -/
def counts (length : Nat) : List Insertion := [.stringView (List.replicate length 'x'), .integer 12345, .integer 678]

/-- With 40 bytes left neither number is kept. -/
theorem skipsLast_counts : SkipsLast kSmallBuffer (counts 3960) := by
  refine .written False.elim ?_
  rw [Insertion.text, List.length_replicate]
  exact .skipped (by decide) (by decide)

theorem timing_truncates :
    (∀ n, contents ((timing 3900).take n) <+: ((timing 3900).take n).flatMap Insertion.text) ∧
      ∀ n, contents ((counts 3960).take n) <+: ((counts 3960).take n).flatMap Insertion.text := by
  have hroom : ((timing 3900).flatMap Insertion.text).length + kMaxNumericSize ≤ kSmallBuffer := by
    rw [length_timing]
    decide
  exact ⟨((truncates_at_end _).mp (skipsLast_of_room hroom)).1, ((truncates_at_end _).mp skipsLast_counts).1⟩

/-- 40 bytes are left: the number is skipped, and the unit is kept. -/
theorem number_disappears :
    contents (timing 3960) = List.replicate 3960 'x' ++ "ms".toList ∧
      ¬contents (timing 3960) <+: (timing 3960).flatMap Insertion.text := by
  have hmessage : (fresh.append (List.replicate 3960 'x')).data = List.replicate 3960 'x' :=
    data_append (by rw [List.length_replicate]; decide)
  have hskipped : Insertion.Skipped (fresh.append (List.replicate 3960 'x')).avail (.integer 12345) := by
    rw [Insertion.Skipped, avail, hmessage, List.length_replicate]
    decide
  have hcontents : contents (timing 3960) = List.replicate 3960 'x' ++ "ms".toList := by
    have hunit : ((fresh.append (List.replicate 3960 'x')).append "ms".toList).data =
        List.replicate 3960 'x' ++ "ms".toList := by
      rw [data_append (by rw [hmessage, List.length_replicate]; decide), hmessage]
    rw [← hunit, ← insert_of_skipped hskipped]
    rfl
  refine ⟨hcontents, ?_⟩
  rw [hcontents, timing, List.flatMap_cons]
  refine fun hfront => absurd ((List.prefix_append_right_inj _).mp hfront) ?_
  decide

end Muduo.LogStream
