import Mathlib.Algebra.GroupWithZero.Nat
import Mathlib.Data.List.Forall2
import Muduo.AppendFile

/-! # What reaches a file, and what is counted

Every call of `append` ends, and what it puts into the file is the front of its line. The count is of whole lines: what
a call has written of a line before it failed is in the file and not in the count. -/

namespace Muduo

def WriteReturn.fails : WriteReturn → Bool
  | .count 0 | .error _ => true
  | .count (_ + 1) | .interrupted => false

/-- The call has put bytes into the file. -/
def WriteReturn.writes : WriteReturn → Bool
  | .count (_ + 1) => true
  | .count 0 | .interrupted | .error _ => false

/-- No run of interruptions goes on forever. -/
def FinitelyInterrupted (results : Nat → WriteReturn) : Prop := ∀ k, ∃ j, k ≤ j ∧ results j ≠ .interrupted

namespace AppendFile
open Lib
variable {results : Nat → WriteReturn} {f g : AppendFile} {bytes : Bytes} {s : AppendLoop}

/-- The file has seen the results from the first one on. -/
def Genuine (results : Nat → WriteReturn) (f : AppendFile) : Prop :=
  f.returned = (List.range f.returned.length).map results

/-! ## One call -/

/-- A turn of the loop: `write` returns `r` and has put `chunk` into the file. -/
structure Turn (bytes : Bytes) (s t : AppendLoop) (r : WriteReturn) (chunk : Bytes) : Prop where
  returned : t.file.returned = s.file.returned ++ [r]
  contents : t.file.contents = s.file.contents ++ chunk
  front : chunk <+: bytes.drop s.offset
  offset : t.offset = s.offset + chunk.length
  failed : t.failed = (s.failed || r.fails)
  writes : s.offset < bytes.length → (chunk = [] ↔ r.writes = false)
  advances : r = .interrupted ∧ chunk = [] ∨ r.fails = true ∨ (s.offset < bytes.length → chunk ≠ [])
  writtenBytes : t.file.writtenBytes = s.file.writtenBytes
  isOpen : t.file.isOpen = s.file.isOpen

theorem turn_writeChunk (results : Nat → WriteReturn) (bytes : Bytes) (s : AppendLoop) :
    ∃ chunk, Turn bytes s (writeChunk results bytes s) (results s.file.returned.length) chunk := by
  have hnone : ∀ {r : WriteReturn}, r.writes = false → s.offset < bytes.length → (([] : Bytes) = [] ↔ r.writes = false) :=
    fun hr _ => iff_of_true rfl hr
  unfold writeChunk
  cases hresult : results s.file.returned.length with
  | count n =>
    cases n with
    | zero =>
      exact ⟨[], rfl, (List.append_nil _).symm, List.nil_prefix, rfl, (Bool.or_true _).symm, hnone rfl, .inr (.inl rfl),
        rfl, rfl⟩
    | succ n =>
      have hsome : s.offset < bytes.length → (bytes.drop s.offset).take (n + 1) ≠ [] := by
        intro hlt
        rw [← List.length_pos_iff, List.length_take, List.length_drop]
        omega
      refine ⟨(bytes.drop s.offset).take (n + 1), rfl, rfl, List.take_prefix _ _, ?_, (Bool.or_false _).symm, ?_,
        .inr (.inr hsome), rfl, rfl⟩
      · rw [List.length_take]
      · exact fun hlt => iff_of_false (hsome hlt) Bool.noConfusion
  | interrupted =>
    exact ⟨[], rfl, (List.append_nil _).symm, List.nil_prefix, rfl, (Bool.or_false _).symm, hnone rfl, .inl ⟨rfl, rfl⟩,
      rfl, rfl⟩
  | error errno =>
    exact ⟨[], rfl, (List.append_nil _).symm, List.nil_prefix, rfl, (Bool.or_true _).symm, hnone rfl, .inr (.inl rfl),
      rfl, rfl⟩

theorem loop_ends (hresults : FinitelyInterrupted results) (bytes : Bytes) (s : AppendLoop) :
    ∃ fuel t, whileLoop (goesOn bytes) (writeChunk results bytes) fuel s = some t := by
  -- on the bytes left, and for as many of them on the interruptions before another result
  induction hleft : bytes.length - s.offset using Nat.strongRecOn generalizing s with
  | ind left ihleft =>
    obtain ⟨j, hj, hother⟩ := hresults s.file.returned.length
    induction hwait : j - s.file.returned.length using Nat.strongRecOn generalizing s with
    | ind wait ihwait =>
      cases hcond : goesOn bytes s with
      | false => exact ⟨0, s, whileLoop_of_not hcond⟩
      | true =>
        have hlt : s.offset < bytes.length := of_decide_eq_true (Bool.and_eq_true_iff.mp hcond).1
        suffices hnext : ∃ fuel t, whileLoop (goesOn bytes) (writeChunk results bytes) fuel
            (writeChunk results bytes s) = some t by
          obtain ⟨fuel, t, ht⟩ := hnext
          exact ⟨fuel + 1, t, by rw [whileLoop, if_pos hcond, ht]⟩
        obtain ⟨chunk, hturn⟩ := turn_writeChunk results bytes s
        have hoffset := hturn.offset
        rcases hturn.advances with ⟨hinterrupted, rfl⟩ | hfails | hadvances
        · have hne : j ≠ s.file.returned.length := fun heq => hother (heq ▸ hinterrupted)
          have hlen := congrArg List.length hturn.returned
          rw [List.length_append, List.length_singleton] at hlen
          exact ihwait _ (by omega) _ (by rw [hoffset]; exact hleft) (by omega) rfl
        · exact ⟨0, _, whileLoop_of_not (by simp [goesOn, hturn.failed, hfails])⟩
        · have hpos := List.length_pos_iff.mpr (hadvances hlt)
          exact ihleft _ (by omega) _ rfl

/-- What a call of `append` has written of its line, and what `write` has returned to it. -/
structure Part where
  bytes : Bytes
  returned : List WriteReturn

def Part.failed (part : Part) : Bool := part.returned.any WriteReturn.fails

/-- The front of the line is written, all of it if no call of `write` fails, and nothing only if no call writes. -/
structure Part.IsOf (line : Bytes) (part : Part) : Prop where
  front : part.bytes <+: line
  empty : part.bytes = [] ↔ ∀ r ∈ part.returned, r.writes = false
  whole : part.failed = false → part.bytes = line

/-- The loop has written the line up to its offset. -/
structure Progress (results : Nat → WriteReturn) (f : AppendFile) (bytes : Bytes) (s : AppendLoop)
    (seen : List WriteReturn) : Prop where
  genuine : s.file.Genuine results
  returned : s.file.returned = f.returned ++ seen
  contents : s.file.contents = f.contents ++ bytes.take s.offset
  offset : s.offset ≤ bytes.length
  none_written : s.offset = 0 ↔ ∀ r ∈ seen, r.writes = false
  failed : s.failed = seen.any WriteReturn.fails
  writtenBytes : s.file.writtenBytes = f.writtenBytes
  isOpen : s.file.isOpen = f.isOpen

theorem Progress.start (hf : f.Genuine results) : Progress results f bytes { file := f } [] :=
  ⟨hf, (List.append_nil _).symm, (List.append_nil _).symm, Nat.zero_le _,
    iff_of_true rfl fun _ hr => absurd hr List.not_mem_nil, rfl, rfl, rfl⟩

theorem Progress.step {seen : List WriteReturn} (hs : Progress results f bytes s seen) (hcond : goesOn bytes s = true) :
    ∃ seen', Progress results f bytes (writeChunk results bytes s) seen' := by
  obtain ⟨chunk, hturn⟩ := turn_writeChunk results bytes s
  have hle := hturn.front.length_le
  rw [List.length_drop] at hle
  have hlt : s.offset < bytes.length := of_decide_eq_true (Bool.and_eq_true_iff.mp hcond).1
  refine ⟨seen ++ [results s.file.returned.length], ?_, ?_, ?_, ?_, ?_, ?_, ?_, ?_⟩
  · have hgenuine := hs.genuine
    unfold Genuine at hgenuine ⊢
    rw [hturn.returned, List.length_append, List.length_singleton, List.range_succ, List.map_append, ← hgenuine]
    rfl
  · rw [hturn.returned, hs.returned, List.append_assoc]
  · rw [hturn.contents, hs.contents, hturn.offset, List.take_add, List.append_assoc,
      ← List.prefix_iff_eq_take.mp hturn.front]
  · have := hs.offset
    rw [hturn.offset]
    omega
  · rw [hturn.offset, Nat.add_eq_zero_iff, List.length_eq_zero_iff, hs.none_written, hturn.writes hlt,
      List.forall_mem_append, List.forall_mem_singleton]
  · rw [hturn.failed, hs.failed, List.any_append, List.any_cons, List.any_nil, Bool.or_false]
  · rw [hturn.writtenBytes, hs.writtenBytes]
  · rw [hturn.isOpen, hs.isOpen]

/-- What a call of `append` does to an open file. -/
structure Appended (results : Nat → WriteReturn) (f g : AppendFile) (line : Bytes) (part : Part) : Prop where
  genuine : g.Genuine results
  isOf : part.IsOf line
  contents : g.contents = f.contents ++ part.bytes
  returned : g.returned = f.returned ++ part.returned
  writtenBytes : g.writtenBytes = f.writtenBytes + if part.failed then 0 else part.bytes.length
  isOpen : g.isOpen = true

theorem Progress.appended {t : AppendLoop} {seen : List WriteReturn} (ht : Progress results f bytes t seen)
    (hopen : f.isOpen = true) (hne : bytes ≠ []) (hcond : goesOn bytes t = false) :
    Appended results f
      (if t.failed then t.file else { t.file with writtenBytes := t.file.writtenBytes + bytes.length }) bytes
      ⟨bytes.take t.offset, seen⟩ := by
  obtain ⟨hgenuine, hreturned, hcontents, hoffset, hnone, hfailed, hwritten, hopen'⟩ := ht
  have hpart : Part.failed ⟨bytes.take t.offset, seen⟩ = t.failed := hfailed.symm
  have hempty : bytes.take t.offset = [] ↔ ∀ r ∈ seen, r.writes = false := by
    rw [List.take_eq_nil_iff, or_iff_left hne, hnone]
  cases hend : t.failed with
  | true =>
    rw [hend] at hpart
    refine ⟨hgenuine, ⟨List.take_prefix _ _, hempty, ?_⟩, hcontents, hreturned, ?_, hopen'.trans hopen⟩
    · intro hnot
      rw [hpart] at hnot
      cases hnot
    · rw [hpart]
      exact hwritten
  | false =>
    rw [hend] at hpart
    have hall : bytes.take t.offset = bytes := by
      refine List.take_of_length_le ?_
      simpa [goesOn, hend] using hcond
    refine ⟨hgenuine, ⟨List.take_prefix _ _, hempty, fun _ => hall⟩, hcontents, hreturned, ?_, hopen'.trans hopen⟩
    rw [hpart, hall]
    exact congrArg (· + bytes.length) hwritten

theorem appended_of_appendBytes (hresults : FinitelyInterrupted results) (hf : f.Genuine results)
    (hopen : f.isOpen = true) (line : Bytes) :
    ∃ fuel g part, (∀ fuel', fuel ≤ fuel' → f.appendBytes results fuel' line = some g) ∧
      Appended results f g line part := by
  cases hempty : line.isEmpty with
  | true =>
    rw [List.isEmpty_iff] at hempty
    subst hempty
    refine ⟨0, f, ⟨[], []⟩, fun fuel' _ => rfl, ?_⟩
    have hnone : ∀ r ∈ ([] : List WriteReturn), r.writes = false := fun _ hr => absurd hr List.not_mem_nil
    exact ⟨hf, ⟨List.nil_prefix, iff_of_true rfl hnone, fun _ => rfl⟩, (List.append_nil _).symm, (List.append_nil _).symm,
      rfl, hopen⟩
  | false =>
    obtain ⟨fuel, t, ht⟩ := loop_ends hresults line { file := f }
    obtain ⟨⟨seen, hprogress⟩, hcond⟩ := whileLoop_keeps (I := fun s => ∃ seen, Progress results f line s seen)
      (fun hs hcond => hs.elim fun _ hs => hs.step hcond) ⟨[], .start hf⟩ ht
    have hne : line ≠ [] := by
      rintro rfl
      cases hempty
    refine ⟨fuel, _, _, ?_, hprogress.appended hopen hne hcond⟩
    intro fuel' hle
    rw [appendBytes, if_neg (by simp [hempty, hopen]), whileLoop_mono ht hle, Option.map_some]

/-- If no call of `write` fails, the file gets all of the line, and counts it. -/
theorem appendBytes_whole (hresults : FinitelyInterrupted results) (hwrites : ∀ k, (results k).fails = false)
    (hf : f.Genuine results) (hopen : f.isOpen = true) (line : Bytes) :
    ∃ fuel g, (∀ fuel', fuel ≤ fuel' → f.appendBytes results fuel' line = some g) ∧
      g.contents = (f.appendWhole line).contents ∧ g.writtenBytes = (f.appendWhole line).writtenBytes := by
  obtain ⟨fuel, g, part, hend, happended⟩ := appended_of_appendBytes hresults hf hopen line
  have hnone : part.failed = false := by
    have hall : ∀ r ∈ g.returned, r.fails = false := by
      rw [happended.genuine]
      exact List.forall_mem_map.mpr fun k _ => hwrites k
    rw [happended.returned] at hall
    rw [Part.failed, List.any_eq_false]
    intro r hr
    rw [hall r (List.mem_append_right _ hr)]
    exact Bool.false_ne_true
  refine ⟨fuel, g, hend, ?_, ?_⟩
  · rw [happended.contents, happended.isOf.whole hnone]
    rfl
  · rw [happended.writtenBytes, hnone, happended.isOf.whole hnone]
    rfl

/-! ## All calls -/

/-- The bytes that calls have written before they failed. -/
def lost (parts : List Part) : Nat := ((parts.filter Part.failed).map fun part => part.bytes.length).sum

theorem lost_eq_zero_iff {lines : List Bytes} {parts : List Part} (hof : List.Forall₂ Part.IsOf lines parts) :
    lost parts = 0 ↔ ∀ part ∈ parts, part.failed = true → ∀ r ∈ part.returned, r.writes = false := by
  have hempty : ∀ part ∈ parts, (part.bytes = [] ↔ ∀ r ∈ part.returned, r.writes = false) := by
    induction hof with
    | nil => exact fun _ hpart => absurd hpart List.not_mem_nil
    | cons hline _ ih => exact List.forall_mem_cons.mpr ⟨hline.empty, ih⟩
  rw [lost, List.sum_eq_zero_iff_forall_eq_nat]
  simp only [List.forall_mem_map, List.mem_filter, and_imp, List.length_eq_zero_iff]
  exact forall₂_congr fun part hpart => imp_congr_right fun _ => hempty part hpart

/-- Calls of `append` on an open file, with the part that each has written. -/
structure AppendedAll (results : Nat → WriteReturn) (f g : AppendFile) (lines : List Bytes) (parts : List Part) : Prop where
  genuine : g.Genuine results
  isOf : List.Forall₂ Part.IsOf lines parts
  contents : g.contents = f.contents ++ parts.flatMap Part.bytes
  returned : g.returned = f.returned ++ parts.flatMap Part.returned
  writtenBytes : g.writtenBytes + lost parts = f.writtenBytes + (parts.flatMap Part.bytes).length

theorem Appended.cons {h : AppendFile} {line : Bytes} {lines : List Bytes} {part : Part} {parts : List Part}
    (hfirst : Appended results f g line part) (hrest : AppendedAll results g h lines parts) :
    AppendedAll results f h (line :: lines) (part :: parts) := by
  obtain ⟨-, hof, hcontents, hreturned, hwritten, -⟩ := hfirst
  obtain ⟨hgenuine, hofs, hcontents', hreturned', hwritten'⟩ := hrest
  refine ⟨hgenuine, .cons hof hofs, ?_, ?_, ?_⟩
  · rw [hcontents', hcontents, List.flatMap_cons, List.append_assoc]
  · rw [hreturned', hreturned, List.flatMap_cons, List.append_assoc]
  · rw [hwritten] at hwritten'
    rw [List.flatMap_cons, List.length_append]
    cases hfailed : part.failed with
    | true =>
      have hlost : lost (part :: parts) = part.bytes.length + lost parts := by simp [lost, hfailed]
      rw [hfailed] at hwritten'
      simp only [if_true] at hwritten'
      omega
    | false =>
      have hlost : lost (part :: parts) = lost parts := by simp [lost, hfailed]
      rw [hfailed] at hwritten'
      simp only [Bool.false_eq_true, if_false] at hwritten'
      omega

theorem appendedAll_of_append (hresults : FinitelyInterrupted results) (hf : f.Genuine results)
    (hopen : f.isOpen = true) (lines : List Bytes) :
    ∃ fuel g parts, (∀ fuel', fuel ≤ fuel' → f.append results fuel' lines = some g) ∧
      AppendedAll results f g lines parts := by
  induction lines generalizing f with
  | nil =>
    refine ⟨0, f, [], fun fuel' _ => rfl, hf, .nil, ?_, ?_, rfl⟩
    · exact (List.append_nil _).symm
    · exact (List.append_nil _).symm
  | cons line lines ih =>
    obtain ⟨fuel, g, part, hfirst, happended⟩ := appended_of_appendBytes hresults hf hopen line
    obtain ⟨fuel', h, parts, hrest, hall⟩ := ih happended.genuine happended.isOpen
    refine ⟨max fuel fuel', h, part :: parts, ?_, happended.cons hall⟩
    intro k hk
    rw [append, hfirst k (Nat.le_trans (Nat.le_max_left _ _) hk)]
    exact hrest k (Nat.le_trans (Nat.le_max_right _ _) hk)

/-- Lines appended to a new file: every call ends; the file gets the front of each line, and all of it unless a call of
`write` fails; and the count is the length of the file exactly if no call of `append` in which a `write` failed has seen
one that wrote. -/
theorem writtenBytes_exact (hresults : FinitelyInterrupted results) (lines : List Bytes) :
    ∃ fuel f parts, (∀ fuel', fuel ≤ fuel' → append results fuel' lines {} = some f) ∧
      f.returned = (List.range f.returned.length).map results ∧ f.returned = parts.flatMap Part.returned ∧
      List.Forall₂ Part.IsOf lines parts ∧ f.contents = parts.flatMap Part.bytes ∧
      (f.writtenBytes = f.contents.length ↔
        ∀ part ∈ parts, part.failed = true → ∀ r ∈ part.returned, r.writes = false) := by
  obtain ⟨fuel, f, parts, hend, hall⟩ := appendedAll_of_append hresults (f := {}) rfl rfl lines
  obtain ⟨hgenuine, hof, hcontents, hreturned, hwritten⟩ := hall
  refine ⟨fuel, f, parts, hend, hgenuine, hreturned, hof, hcontents, ?_⟩
  rw [← lost_eq_zero_iff hof, hcontents]
  change f.writtenBytes = (parts.flatMap Part.bytes).length ↔ _
  have hzero : f.writtenBytes + lost parts = 0 + (parts.flatMap Part.bytes).length := hwritten
  omega

/-- A short count, an interruption, the rest; then an error before the first byte of the next line. -/
def shortThenError : Nat → WriteReturn
  | 0 => .count 2
  | 1 => .interrupted
  | 3 => .error 28
  | _ => .count 9

theorem writtenBytes_shortThenError :
    FinitelyInterrupted shortThenError ∧
      ∃ fuel f parts, (∀ fuel', fuel ≤ fuel' → append shortThenError fuel' [[1, 2, 3, 4, 5], [6, 7]] {} = some f) ∧
        List.Forall₂ Part.IsOf [[1, 2, 3, 4, 5], [6, 7]] parts ∧ f.contents = [1, 2, 3, 4, 5] ∧ f.writtenBytes = 5 ∧
        ∀ part ∈ parts, part.failed = true → ∀ r ∈ part.returned, r.writes = false := by
  have hresults : FinitelyInterrupted shortThenError := by
    intro k
    refine ⟨k + 4, by omega, ?_⟩
    simp [shortThenError]
  obtain ⟨fuel, f, parts, hend, -, -, hof, -, hexact⟩ := writtenBytes_exact hresults [[1, 2, 3, 4, 5], [6, 7]]
  have hvalue : append shortThenError (fuel + 4) [[1, 2, 3, 4, 5], [6, 7]] {} =
      some { writtenBytes := 5, contents := [1, 2, 3, 4, 5],
             returned := [.count 2, .interrupted, .count 9, .error 28], reports := 1 } := rfl
  have hfile := (hend (fuel + 4) (Nat.le_add_right _ _)).symm.trans hvalue
  cases hfile
  exact ⟨hresults, fuel, _, parts, hend, hof, rfl, rfl, hexact.mp rfl⟩

/-- The disk is full behind the third byte. -/
def fullDisk : Nat → WriteReturn
  | 0 => .count 3
  | _ => .error 28

theorem writtenBytes_behind :
    ∃ f, append fullDisk 2 [[1, 2, 3, 4, 5]] {} = some f ∧ f.contents = [1, 2, 3] ∧ f.writtenBytes = 0 :=
  ⟨_, rfl, rfl, rfl⟩

end AppendFile
end Muduo
