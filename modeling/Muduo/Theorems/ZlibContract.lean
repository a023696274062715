import Mathlib.Tactic.SplitIfs
import Muduo.ZlibStream

/-! # The contract of zlib

What the documentation of zlib promises of `deflate` and `inflate`, for the states that they reach: what was given to them
and what they have produced since the stream was begun. A small instance that knows one stream shows what the contract
means. -/

namespace Muduo

namespace Zlib
variable {σ : Type} {z : Zlib σ}

/-- The states after calls that returned `Z_OK`, with all input that was used and all output that was produced since the
stream was begun. Once it is called with `Z_FINISH`, this goes on. -/
inductive Reached (z : Zlib σ) : ZFlush → σ → Bytes → Bytes → Prop where
  | init : Reached z .noFlush z.init.2 [] []
  | run {f g : ZFlush} {s : σ} {fed out : Bytes} {input : Bytes} {n : Nat} (h : Reached z f s fed out)
      (hflush : f = .finish → g = .finish) (hok : (z.run g input n s).status = .ok) :
      Reached z g (z.run g input n s).state (fed ++ input.take (z.run g input n s).consumed)
        (out ++ (z.run g input n s).produced)

/-- `deflate` on the way through a payload: with input and space it makes progress, and at the end, with `Z_FINISH` and
space, it produces more or reports the end of the stream. All it produces for a payload is bounded. -/
structure Deflates (z : Zlib σ) (payload : Bytes) : Prop where
  init : z.init.1 = .ok
  noFlush : ∀ {s : σ} {fed out input : Bytes} {n : Nat}, z.Reached .noFlush s fed out → fed ++ input <+: payload →
    input ≠ [] → 0 < n →
    let r := z.run .noFlush input n s
    r.status = .ok ∧ (r.consumed ≠ 0 ∨ r.produced ≠ [])
  finish : ∀ {f : ZFlush} {s : σ} {out : Bytes} {n : Nat}, z.Reached f s payload out → 0 < n →
    let r := z.run .finish [] n s
    r.status = .ok ∧ r.produced ≠ [] ∨ r.status = .streamEnd ∧ z.finalize r.state = .ok
  bounded : ∃ bound, ∀ {f : ZFlush} {s : σ} {fed out : Bytes}, z.Reached f s fed out → fed <+: payload →
    out.length ≤ bound

/-- What `deflate` has produced when it reports the end of the stream. -/
def Compressed (z : Zlib σ) (payload y : Bytes) : Prop :=
  ∃ f s out n, z.Reached f s payload out ∧ (z.run .finish [] n s).status = .streamEnd ∧
    y = out ++ (z.run .finish [] n s).produced

/-- `inflate` on the way through the complete stream `y` of a payload: with input and space it makes progress, what it
produces goes on as the payload, and it reports the end of the stream in the call that uses the last byte of `y`, when all
of the payload is there. -/
structure Inflates (z : Zlib σ) (y payload : Bytes) : Prop where
  init : z.init.1 = .ok
  nonempty : y ≠ []
  noFlush : ∀ {s : σ} {fed out input : Bytes} {n : Nat}, z.Reached .noFlush s fed out → fed ++ input <+: y →
    input ≠ [] → 0 < n →
    let r := z.run .noFlush input n s
    (r.consumed ≠ 0 ∨ r.produced ≠ []) ∧ out ++ r.produced <+: payload ∧
    (fed ++ input.take r.consumed ≠ y → r.status = .ok) ∧
    (fed ++ input.take r.consumed = y → r.status = .streamEnd ∧ out ++ r.produced = payload)

end Zlib

/-! ## An instance for one stream

What zlib does with one payload of one byte, and an error for everything else. -/

namespace Zlib

def samplePayload : Bytes := [0x61]

def sampleStream : Bytes := [0x78, 0x9c, 0x4b, 0x04, 0x00, 0x00, 0x62, 0x00, 0x62]

/-- With `Z_FINISH`, `inflate` does not return `Z_OK`. -/
def sampleStatus (flush : ZFlush) (used : Nat) : ZStatus :=
  if used = 9 then .streamEnd else if flush = .finish then .bufError else .ok

/-- `inflate`; its state is how much of the stream it has used. The byte is there after four bytes. -/
def inflateSample (flush : ZFlush) (input : Bytes) (n k : Nat) : ZResult Nat :=
  if k = 9 then ⟨.streamEnd, 0, [], 9⟩
  else if input = [] ∨ n = 0 then ⟨.bufError, 0, [], k⟩
  else if (input.take (9 - k)).isPrefixOf (sampleStream.drop k) then
    let used := min input.length (9 - k)
    ⟨sampleStatus flush (k + used), used, if k < 4 ∧ 4 ≤ k + used then samplePayload else [], k + used⟩
  else ⟨.dataError, 0, [], k⟩

def sampleInflate : Zlib Nat where
  init := (.ok, 0)
  run := inflateSample
  finalize _ := .ok
  consumed_le {_ input _ k} := by
    rw [inflateSample]
    split_ifs
    · exact Nat.zero_le _
    · exact Nat.zero_le _
    · exact Nat.min_le_left _ _
    · exact Nat.zero_le _
  produced_le {_ input n k} := by
    rw [inflateSample]
    split_ifs with hend hnone hstream
    · exact Nat.zero_le _
    · exact Nat.zero_le _
    · have hn : n ≠ 0 := fun h => hnone (.inr h)
      simp only
      split
      · exact Nat.pos_of_ne_zero hn
      · exact Nat.zero_le _
    · exact Nat.zero_le _

section Inflate
variable {flush : ZFlush} {k n : Nat} {fed out input : Bytes}

/-- What the instance has produced after `k` bytes. -/
def sampleOutput (k : Nat) : Bytes := if 4 ≤ k then samplePayload else []

theorem sampleOutput_append (used : Nat) :
    sampleOutput k ++ (if k < 4 ∧ 4 ≤ k + used then samplePayload else []) = sampleOutput (k + used) := by
  simp only [sampleOutput]
  split_ifs <;> first | rfl | omega

theorem inflateSample_ok (h : (inflateSample flush input n k).status = .ok) :
    ∃ used, used ≤ input.length ∧ k + used ≠ 9 ∧ (k ≤ 9 → k + used ≤ 9) ∧ inflateSample flush input n k =
      ⟨.ok, used, if k < 4 ∧ 4 ≤ k + used then samplePayload else [], k + used⟩ := by
  rw [inflateSample] at h ⊢
  split_ifs at h with hend hnone hstream
  have hstatus : sampleStatus flush (k + min input.length (9 - k)) = .ok := h
  refine ⟨min input.length (9 - k), Nat.min_le_left _ _, fun hused => ?_, by omega, ?_⟩
  · rw [sampleStatus, if_pos hused] at hstatus
    cases hstatus
  · rw [if_neg hend, if_neg hnone, if_pos hstream, ← hstatus]

theorem reached_sampleInflate (h : sampleInflate.Reached flush k fed out) :
    fed.length = k ∧ k < 9 ∧ out = sampleOutput k := by
  induction h with
  | init => exact ⟨rfl, by decide, rfl⟩
  | run h hflush hok ih =>
    obtain ⟨hlen, hk, rfl⟩ := ih
    obtain ⟨used, hle, hused, hmax, heq⟩ := inflateSample_ok hok
    simp only [sampleInflate, heq]
    refine ⟨?_, by omega, sampleOutput_append _⟩
    rw [List.length_append, List.length_take, hlen]
    omega

theorem inflateSample_of_prefix (hk : fed.length = k) (hlt : k < 9) (hstream : fed ++ input <+: sampleStream)
    (hin : input ≠ []) (hn : 0 < n) :
    inflateSample flush input n k = ⟨sampleStatus flush (k + input.length), input.length,
      if k < 4 ∧ 4 ≤ k + input.length then samplePayload else [], k + input.length⟩ := by
  have hle : k + input.length ≤ 9 := by
    have := hstream.length_le
    rwa [List.length_append, hk] at this
  have hmin : min input.length (9 - k) = input.length := by omega
  obtain ⟨rest, hrest⟩ := hstream
  have hdrop : sampleStream.drop k = input ++ rest := by
    rw [← hrest, ← hk, List.append_assoc, List.drop_left]
  have hbegin : (input.take (9 - k)).isPrefixOf (sampleStream.drop k) := by
    rw [List.take_of_length_le (by omega), hdrop]
    exact List.isPrefixOf_iff_prefix.mpr (List.prefix_append _ _)
  rw [inflateSample, if_neg (by omega), if_neg (not_or_intro hin (by omega)), if_pos hbegin, hmin]

theorem inflates_sampleInflate : sampleInflate.Inflates sampleStream samplePayload where
  init := rfl
  nonempty := List.cons_ne_nil _ _
  noFlush {k fed out input n} hreached hstream hin hn := by
    obtain ⟨hlen, hk, rfl⟩ := reached_sampleInflate hreached
    have hall : fed ++ input = sampleStream ↔ k + input.length = 9 := by
      rw [← hlen, ← List.length_append]
      exact ⟨fun h => congrArg List.length h, fun h => hstream.eq_of_length h⟩
    simp only [sampleInflate, inflateSample_of_prefix hlen hk hstream hin hn, sampleOutput_append, List.take_length]
    refine ⟨.inl (Nat.ne_of_gt (List.length_pos_iff.mpr hin)), ?_, fun hne => ?_, fun heq => ⟨if_pos (hall.mp heq), ?_⟩⟩
    · rw [sampleOutput]
      split
      · exact List.prefix_rfl
      · exact List.nil_prefix
    · exact if_neg fun heq => hne (hall.mpr heq)
    · rw [hall.mp heq]
      rfl

theorem finish_sampleInflate (h : sampleInflate.Reached flush k fed out) :
    (sampleInflate.run .finish [] n k).status = .bufError := by
  obtain ⟨-, hk, -⟩ := reached_sampleInflate h
  simp only [sampleInflate]
  rw [inflateSample, if_neg (Nat.ne_of_lt hk), if_pos (.inl rfl)]

end Inflate

/-- The next bytes of the stream after `e`. -/
def sampleTail (e n : Nat) : Bytes := (sampleStream.drop e).take n

/-- `deflate`; its state is what it has used and how much of the stream it has produced. The header comes first, the rest
with `Z_FINISH`. -/
def deflateSample (flush : ZFlush) (input : Bytes) (n : Nat) (s : Bytes × Nat) : ZResult (Bytes × Nat) :=
  if n = 0 then ⟨.bufError, 0, [], s⟩
  else match flush with
    | .finish =>
      let tail := sampleTail s.2 n
      if s.1 ++ input = samplePayload then
        ⟨if s.2 + tail.length = 9 then .streamEnd else .ok, input.length, tail, (samplePayload, s.2 + tail.length)⟩
      else ⟨.streamError, 0, [], s⟩
    | .noFlush =>
      let used := if s.2 + n < 2 then 0 else input.length
      let header := sampleTail s.2 (min n (2 - s.2))
      ⟨.ok, used, header, (s.1 ++ input.take used, s.2 + header.length)⟩

theorem length_sampleTail {e n : Nat} : (sampleTail e n).length = min n (9 - e) := by
  rw [sampleTail, List.length_take, List.length_drop]
  rfl

def sampleDeflate : Zlib (Bytes × Nat) where
  init := (.ok, [], 0)
  run := deflateSample
  finalize _ := .ok
  consumed_le {flush input n s} := by
    cases flush with
    | finish =>
      simp only [deflateSample]
      split_ifs <;> simp only [Nat.zero_le, Nat.le_refl]
    | noFlush =>
      simp only [deflateSample]
      split_ifs <;> simp only [Nat.zero_le, Nat.le_refl]
  produced_le {flush input n s} := by
    cases flush with
    | finish =>
      simp only [deflateSample]
      split
      · exact Nat.zero_le _
      · split
        · exact List.length_take_le _ _
        · exact Nat.zero_le _
    | noFlush =>
      simp only [deflateSample]
      split
      · exact Nat.zero_le _
      · rw [length_sampleTail]
        omega

section Deflate
variable {flush : ZFlush} {s : Bytes × Nat} {n : Nat} {fed out input : Bytes}

theorem take_append_sampleTail {e : Nat} :
    sampleStream.take e ++ sampleTail e n = sampleStream.take (e + (sampleTail e n).length) := by
  rw [List.take_add]
  exact congrArg _ (List.prefix_iff_eq_take.mp (List.take_prefix n _))

theorem deflateSample_finish (hn : 0 < n) (hs : s.1 ++ input = samplePayload) :
    deflateSample .finish input n s = ⟨if s.2 + (sampleTail s.2 n).length = 9 then .streamEnd else .ok, input.length,
      sampleTail s.2 n, (samplePayload, s.2 + (sampleTail s.2 n).length)⟩ := by
  rw [deflateSample, if_neg (Nat.ne_of_gt hn)]
  simp only [if_pos hs]

theorem deflateSample_noFlush (hn : 0 < n) :
    deflateSample .noFlush input n s = ⟨.ok, if s.2 + n < 2 then 0 else input.length, sampleTail s.2 (min n (2 - s.2)),
      (s.1 ++ input.take (if s.2 + n < 2 then 0 else input.length),
        s.2 + (sampleTail s.2 (min n (2 - s.2))).length)⟩ := by
  rw [deflateSample, if_neg (Nat.ne_of_gt hn)]

/-- It gets space, and with `Z_FINISH` it must have got the payload. -/
theorem deflateSample_not_error (h : (deflateSample flush input n s).status = .ok ∨
      (deflateSample flush input n s).status = .streamEnd) :
    0 < n ∧ (flush = .finish → s.1 ++ input = samplePayload) := by
  have hn : n ≠ 0 := by
    rintro rfl
    simp [deflateSample] at h
  refine ⟨Nat.pos_of_ne_zero hn, ?_⟩
  rintro rfl
  by_cases hpayload : s.1 ++ input = samplePayload
  · exact hpayload
  · simp [deflateSample, hn, hpayload] at h

theorem reached_sampleDeflate (h : sampleDeflate.Reached flush s fed out) :
    s.1 = fed ∧ s.2 < 9 ∧ (flush = .noFlush → s.2 ≤ 2) ∧ out = sampleStream.take s.2 := by
  induction h with
  | init => exact ⟨rfl, by decide, fun _ => by decide, rfl⟩
  | @run f g s fed out input n h hflush hok ih =>
    obtain ⟨rfl, hlt, hle, rfl⟩ := ih
    obtain ⟨hn, hpayload⟩ := deflateSample_not_error (.inl hok)
    cases g with
    | finish =>
      simp only [sampleDeflate, deflateSample_finish hn (hpayload rfl), List.take_length] at hok ⊢
      have hlen := length_sampleTail (e := s.2) (n := n)
      refine ⟨(hpayload rfl).symm, ?_, fun hg => ZFlush.noConfusion hg, take_append_sampleTail⟩
      split at hok
      · cases hok
      · omega
    | noFlush =>
      simp only [sampleDeflate, deflateSample_noFlush hn]
      have hle' : s.2 ≤ 2 := hle (by cases f with | noFlush => rfl | finish => cases hflush rfl)
      have hlen := length_sampleTail (e := s.2) (n := min n (2 - s.2))
      exact ⟨trivial, by omega, fun _ => by omega, take_append_sampleTail⟩

theorem deflates_sampleDeflate : sampleDeflate.Deflates samplePayload where
  init := rfl
  noFlush {s fed out input n} hreached hstream hin hn := by
    obtain ⟨-, -, hle, -⟩ := reached_sampleDeflate hreached
    simp only [sampleDeflate, deflateSample_noFlush hn, true_and]
    split
    · refine .inr (List.length_pos_iff.mp ?_)
      rw [length_sampleTail]
      omega
    · exact .inl (Nat.ne_of_gt (List.length_pos_iff.mpr hin))
  finish {f s out n} hreached hn := by
    obtain ⟨hs, hlt, -, -⟩ := reached_sampleDeflate hreached
    simp only [sampleDeflate, deflateSample_finish hn ((List.append_nil _).trans hs)]
    split
    · exact .inr ⟨rfl, trivial⟩
    · refine .inl ⟨rfl, List.length_pos_iff.mp ?_⟩
      rw [length_sampleTail]
      omega
  bounded := by
    refine ⟨9, fun hreached _ => ?_⟩
    obtain ⟨-, -, -, rfl⟩ := reached_sampleDeflate hreached
    exact List.length_take_le' _ _

theorem eq_of_compressed {y : Bytes} (h : sampleDeflate.Compressed samplePayload y) : y = sampleStream := by
  obtain ⟨f, s, out, n, hreached, hend, rfl⟩ := h
  obtain ⟨hs, -, -, rfl⟩ := reached_sampleDeflate hreached
  obtain ⟨hn, -⟩ := deflateSample_not_error (.inr hend)
  simp only [sampleDeflate, deflateSample_finish hn ((List.append_nil _).trans hs)] at hend ⊢
  split at hend
  · rename_i hall
    rw [take_append_sampleTail, hall]
    rfl
  · cases hend

end Deflate

end Zlib
end Muduo
