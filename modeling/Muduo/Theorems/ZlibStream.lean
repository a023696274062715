import Muduo.Theorems.BufferRefinement
import Muduo.Theorems.ZlibContract

/-! # Round trips through compressed streams

The loops of `write` and `finish` keep the buffers in step with what zlib was given and what it has produced, and end
because zlib makes progress. -/

namespace Muduo
open Lib

/-- All the bytes were taken from the input. -/
def ZlibInput.Used : ZlibInput → Prop
  | .string _ => True
  | .buffer input => input.readableBytes = 0

theorem ZlibInput.used_retrieve (input : ZlibInput) : (input.retrieve 0).Used := by
  cases input with
  | string data => trivial
  | buffer input => exact input.readableBytes_retrieve.trans (Nat.sub_self _)

/-- What zlib is handed of an input, by the narrowing of its size. -/
def ZlibInput.handed (input : ZlibInput) : Bytes := input.bytes.take (uInt input.bytes.length)

theorem ZlibInput.handed_eq {input : ZlibInput} (h : input.bytes.length < 2 ^ 32) : input.handed = input.bytes := by
  rw [handed, uInt, Nat.mod_eq_of_lt h, List.take_length]

theorem ZlibInput.flatMap_handed {inputs : List ZlibInput} (h : ∀ input ∈ inputs, input.bytes.length < 2 ^ 32) :
    inputs.flatMap (·.handed) = inputs.flatMap (·.bytes) := by
  rw [List.flatMap_def, List.flatMap_def, List.map_congr_left fun input hinput => handed_eq (h input hinput)]

/-! ## Free space of a buffer -/

namespace Buffer
variable {b : Buffer} {len : Nat} {data : Bytes}

/-- The bytes of the vector that are not readable. -/
def free (b : Buffer) : Nat := b.writableBytes + b.prependableBytes

theorem free_ensureWritableBytes : (b.ensureWritableBytes len).val.free ≤ max b.free (2 * len + kCheapPrepend) := by
  have hreader := b.reader_le
  have hwriter := b.writer_le
  rw [ensureWritableBytes]
  split
  · split
    · rename_i hlen hroom
      simp only [free, grow, writableBytes, prependableBytes, List.length_append, List.length_replicate] at *
      omega
    · rename_i hlen hroom
      have hfit : kCheapPrepend + b.readableSpan.length ≤ b.buffer.length := by
        simp only [writableBytes, prependableBytes] at hroom
        rw [length_readableSpan, readableBytes]
        omega
      simp only [free, moveToFront, writableBytes, prependableBytes, length_overwrite hfit, readableBytes] at *
      omega
  · exact Nat.le_max_left _ _

theorem free_write (h : data.length ≤ b.writableBytes) : (b.write data h).free ≤ b.free := by
  have hfit : b.writerIndex + data.length ≤ b.buffer.length := by
    have := b.writer_le
    unfold writableBytes at h
    omega
  simp only [free, write, writableBytes, prependableBytes, length_overwrite hfit]
  omega

end Buffer

/-! ## One call of zlib -/

namespace ZlibStream
variable {σ : Type} {z : Zlib σ} {s : ZlibStream σ} {content : Bytes} {flush : ZFlush}

/-- The output buffer holds `content`, and its sizes are in the range of `uInt`. -/
structure Holds (s : ZlibStream σ) (content : Bytes) : Prop where
  output : ∃ b : Buffer, s.output = b.raw ∧ b.readableSpan = content ∧ b.free < 2 ^ 32
  bufferSize_pos : 0 < s.bufferSize
  bufferSize_le : s.bufferSize ≤ 2 * 65536

theorem Holds.setInput {data : Bytes} (h : s.Holds content) : (s.setInput data).Holds content :=
  ⟨h.output, h.bufferSize_pos, h.bufferSize_le⟩

/-- How much space `transfer` offers. -/
def space (s : ZlibStream σ) : Nat := uInt (s.output.ensureWritableBytes s.bufferSize).writableBytes

/-- What `transfer` lets zlib do. -/
def resultOf (z : Zlib σ) (flush : ZFlush) (s : ZlibStream σ) : ZResult σ := z.run flush s.nextIn s.space s.zstream

/-- The size of the space, before it is narrowed. -/
def writableSize (s : ZlibStream σ) : Nat := (s.output.ensureWritableBytes s.bufferSize).writableBytes

theorem writableSize_raw {b : Buffer} (h : s.output = b.raw) :
    s.writableSize = (b.ensureWritableBytes s.bufferSize).val.writableBytes := by
  rw [writableSize, h, RawBuffer.ensureWritableBytes_raw, RawBuffer.raw_writableBytes]

theorem space_le : s.space ≤ s.writableSize := Nat.mod_le _ _

/-- What zlib produces is appended to the output, and behind it what the narrowing of the size has hidden. -/
theorem output_transfer {b : Buffer} (h : s.output = b.raw) :
    ∃ (stale : Bytes) (hroom : ((resultOf z flush s).produced ++ stale).length ≤
        (b.ensureWritableBytes s.bufferSize).val.writableBytes),
      stale.length = s.writableSize - s.space ∧
      (s.transfer z flush).output = ((b.ensureWritableBytes s.bufferSize).val.write _ hroom).raw := by
  have hsize := writableSize_raw h
  have hspace := s.space_le
  have hproduced : (resultOf z flush s).produced.length ≤ s.space := z.produced_le
  have hens : s.output.ensureWritableBytes s.bufferSize = (b.ensureWritableBytes s.bufferSize).val.raw := by
    rw [h, RawBuffer.ensureWritableBytes_raw]
  have heq : (s.transfer z flush).output = ((s.output.ensureWritableBytes s.bufferSize).fill
      (resultOf z flush s).produced).hasWritten (s.writableSize - (s.space - (resultOf z flush s).produced.length)) := rfl
  generalize (b.ensureWritableBytes s.bufferSize).val = b' at hens hsize ⊢
  have hlen : (resultOf z flush s).produced.length ≤
      s.writableSize - (s.space - (resultOf z flush s).produced.length) := by omega
  have hroom : s.writableSize - (s.space - (resultOf z flush s).produced.length) ≤ b'.writableBytes :=
    Nat.le_trans (Nat.sub_le _ _) (Nat.le_of_eq hsize)
  obtain ⟨stale, hroom, hstale, hfill⟩ := RawBuffer.fill_hasWritten_stale hlen hroom
  refine ⟨stale, hroom, by omega, ?_⟩
  rw [heq, hens, hfill]

/-- zlib is offered space, and all that it produces is appended to the output. -/
theorem Holds.transfer (h : s.Holds content) :
    0 < s.space ∧ (s.transfer z flush).Holds (content ++ (resultOf z flush s).produced) := by
  obtain ⟨⟨b, hraw, hspan, hfree⟩, hpos, hle⟩ := h
  have hsize := writableSize_raw hraw
  have hroom := (b.ensureWritableBytes s.bufferSize).property
  have hfree' : (b.ensureWritableBytes s.bufferSize).val.free < 2 ^ 32 := by
    have hgrown : _ ≤ max b.free (2 * s.bufferSize + Buffer.kCheapPrepend) := Buffer.free_ensureWritableBytes
    simp only [Buffer.kCheapPrepend] at hgrown
    omega
  have hsmall : s.writableSize < 2 ^ 32 :=
    Nat.lt_of_le_of_lt (Nat.le_trans (Nat.le_of_eq hsize) (Nat.le_add_right _ _)) hfree'
  have hspace : s.space = s.writableSize := Nat.mod_eq_of_lt hsmall
  obtain ⟨stale, hfits, hstale, houtput⟩ : ∃ stale _, _ ∧ (s.transfer z flush).output = _ := output_transfer hraw
  rw [hspace, Nat.sub_self, List.length_eq_zero_iff] at hstale
  refine ⟨by omega, ⟨⟨_, houtput, ?_, Nat.lt_of_le_of_lt (Buffer.free_write _) hfree'⟩, ?_, ?_⟩⟩
  · rw [Buffer.readableSpan_write, Buffer.readableSpan_ensureWritableBytes, hspan, hstale, List.append_nil]
  · simp only [ZlibStream.transfer]
    split <;> omega
  · simp only [ZlibStream.transfer]
    split <;> omega

end ZlibStream

/-! ## What both directions have in common -/

namespace Zlib
variable {σ : Type} {z : Zlib σ}

/-- While the input goes on as in `stream`, a call with input and space makes progress and produces no more than `bound`
bytes in all. It returns `Z_STREAM_END` when it has used what `isEnd` tells, with a `result`, and `Z_OK` before. -/
structure Feeds (z : Zlib σ) (stream : Bytes) (bound : Nat) (isEnd result : Bytes → Prop) : Prop where
  run : ∀ {s : σ} {fed out input : Bytes} {n : Nat}, z.Reached .noFlush s fed out → fed ++ input <+: stream →
    input ≠ [] → 0 < n →
    let r := z.run .noFlush input n s
    (r.consumed ≠ 0 ∨ r.produced ≠ []) ∧ (out ++ r.produced).length ≤ bound ∧
    (¬ isEnd (fed ++ input.take r.consumed) → r.status = .ok) ∧
    (isEnd (fed ++ input.take r.consumed) → r.status = .streamEnd ∧ result (out ++ r.produced))
  /-- Nothing is behind the end. -/
  last : ∀ {fed rest}, isEnd fed → fed ++ rest <+: stream → rest = []

theorem Inflates.feeds {y payload : Bytes} (h : z.Inflates y payload) :
    z.Feeds y payload.length (· = y) (· = payload) where
  run hreached hstream hin hn := by
    obtain ⟨hprogress, hout, hok, hend⟩ := h.noFlush hreached hstream hin hn
    exact ⟨hprogress, hout.length_le, hok, hend⟩
  last hfed hrest := by
    subst hfed
    have hle := hrest.length_le
    rw [List.length_append] at hle
    exact List.length_eq_zero_iff.mp (by omega)

theorem Deflates.feeds {payload : Bytes} (h : z.Deflates payload) :
    ∃ bound, z.Feeds payload bound (fun _ => False) (fun _ => False) ∧
      ∀ {f : ZFlush} {s : σ} {fed out : Bytes}, z.Reached f s fed out → fed <+: payload → out.length ≤ bound := by
  obtain ⟨bound, hbound⟩ := h.bounded
  refine ⟨bound, ⟨fun {s fed out input n} hreached hstream hin hn => ?_, fun hfed => hfed.elim⟩, hbound⟩
  obtain ⟨hok, hprogress⟩ := h.noFlush hreached hstream hin hn
  have hbegin : fed ++ input.take (z.run .noFlush input n s).consumed <+: payload :=
    (List.prefix_append_right_inj fed |>.mpr (List.take_prefix _ _)).trans hstream
  exact ⟨hprogress, hbound (.run hreached (fun hf => ZFlush.noConfusion hf) hok) hbegin, fun _ => hok, False.elim⟩

end Zlib

/-! ## The loop of a `write` -/

namespace ZlibStream
variable {σ : Type} {z : Zlib σ} {s t : ZlibStream σ} {content stream fed out : Bytes} {bound fuel : Nat}
variable {isEnd result : Bytes → Prop}

/-- The stream is not at its end: zlib was given `fed`, and the output has got `out`. -/
structure Running (z : Zlib σ) (bound : Nat) (isEnd : Bytes → Prop) (content fed out : Bytes) (s : ZlibStream σ) :
    Prop where
  holds : s.Holds (content ++ out)
  reached : z.Reached .noFlush s.zstream fed out
  zerror : s.zerror = .ok
  finished : s.finished = false
  le : out.length ≤ bound
  notEnd : ¬ isEnd fed
  returned : ∀ p ∈ s.returned, p.2 = .ok

/-- The loop was left at the end of the stream. -/
structure AtEnd (result : Bytes → Prop) (content : Bytes) (s : ZlibStream σ) : Prop where
  holds : ∃ out, s.Holds (content ++ out) ∧ result out
  zerror : s.zerror = .streamEnd
  finished : s.finished = false
  nextIn : s.nextIn = []

/-- One turn of the loop. -/
theorem Running.step (hz : z.Feeds stream bound isEnd result) (h : s.Running z bound isEnd content fed out)
    (hin : s.nextIn ≠ []) (hstream : fed ++ s.nextIn <+: stream) :
    (∃ fed' out', (s.transfer z .noFlush).Running z bound isEnd content fed' out' ∧
      fed' ++ (s.transfer z .noFlush).nextIn = fed ++ s.nextIn ∧
      (s.transfer z .noFlush).nextIn.length + (bound - out'.length) < s.nextIn.length + (bound - out.length)) ∨
    isEnd (fed ++ s.nextIn) ∧ (s.transfer z .noFlush).AtEnd result content := by
  obtain ⟨hspace, hholds⟩ : 0 < s.space ∧ (s.transfer z .noFlush).Holds _ := h.holds.transfer
  obtain ⟨hprogress, hbound, hok, hend⟩ := hz.run h.reached hstream hin hspace
  have hparts : fed ++ s.nextIn.take (resultOf z .noFlush s).consumed ++ (s.transfer z .noFlush).nextIn =
      fed ++ s.nextIn := by
    rw [List.append_assoc]
    exact congrArg (fed ++ ·) (List.take_append_drop _ _)
  rw [List.append_assoc] at hholds
  by_cases hisEnd : isEnd (fed ++ s.nextIn.take (resultOf z .noFlush s).consumed)
  · obtain ⟨hstatus, hresult⟩ := hend hisEnd
    have hrest : (s.transfer z .noFlush).nextIn = [] := hz.last hisEnd (hparts ▸ hstream)
    rw [hrest, List.append_nil] at hparts
    exact .inr ⟨hparts ▸ hisEnd, ⟨_, hholds, hresult⟩, hstatus, h.finished, hrest⟩
  · refine .inl ⟨_, _, ⟨hholds, .run h.reached (fun hf => ZFlush.noConfusion hf) (hok hisEnd), hok hisEnd, h.finished,
      hbound, hisEnd, List.forall_mem_cons.mpr ⟨hok hisEnd, h.returned⟩⟩, hparts, ?_⟩
    have hconsumed : (resultOf z .noFlush s).consumed ≤ s.nextIn.length := z.consumed_le
    have hnext : (s.transfer z .noFlush).nextIn.length = s.nextIn.length - (resultOf z .noFlush s).consumed :=
      List.length_drop
    have hle := h.le
    have hout : out.length + (resultOf z .noFlush s).produced.length ≤ bound := List.length_append ▸ hbound
    rw [hnext, List.length_append]
    have hmoves : 0 < (resultOf z .noFlush s).consumed + (resultOf z .noFlush s).produced.length := by
      rcases hprogress with hne | hne
      · exact Nat.add_pos_left (Nat.pos_of_ne_zero hne) _
      · exact Nat.add_pos_right _ (List.length_pos_iff.mpr hne)
    simp only [resultOf] at *
    omega

/-- The invariant of the loop, with its rank, when `total` is all that zlib gets. -/
def Feeding (z : Zlib σ) (bound : Nat) (isEnd result : Bytes → Prop) (content total : Bytes) (k : Nat)
    (s : ZlibStream σ) : Prop :=
  (∃ fed out, s.Running z bound isEnd content fed out ∧ fed ++ s.nextIn = total ∧
    k = s.nextIn.length + (bound - out.length)) ∨ isEnd total ∧ s.AtEnd result content

theorem Feeding.step {total : Bytes} {k : Nat} (hz : z.Feeds stream bound isEnd result) (htotal : total <+: stream)
    (h : s.Feeding z bound isEnd result content total k) (hcond : s.goesOn) :
    ∃ k' < k, (s.transfer z .noFlush).Feeding z bound isEnd result content total k' := by
  obtain ⟨hin, hzerror⟩ := of_decide_eq_true hcond
  rcases h with ⟨fed, out, hrun, rfl, rfl⟩ | ⟨-, hend⟩
  · rcases hrun.step hz hin htotal with ⟨fed', out', hrun', hparts, hlt⟩ | hend
    · exact ⟨_, hlt, .inl ⟨fed', out', hrun', hparts, rfl⟩⟩
    · exact ⟨0, Nat.add_pos_left (List.length_pos_iff.mpr hin) _, .inr hend⟩
  · rw [hend.zerror] at hzerror
    cases hzerror

theorem nextIn_of_not_goesOn (hcond : s.goesOn = false) (hzerror : s.zerror = .ok) : s.nextIn = [] :=
  Decidable.byContradiction fun hne => absurd ⟨hne, hzerror⟩ (of_decide_eq_false hcond)

/-- The loop uses all the input, or ends at the end of the stream. -/
theorem Running.loop (hz : z.Feeds stream bound isEnd result) (h : s.Running z bound isEnd content fed out)
    (hstream : fed ++ s.nextIn <+: stream) (hfuel : s.nextIn.length + bound ≤ fuel) :
    ∃ t, whileLoop goesOn (transfer z .noFlush) fuel s = some t ∧ t.nextIn = [] ∧
      ((∃ out', t.Running z bound isEnd content (fed ++ s.nextIn) out') ∨
        isEnd (fed ++ s.nextIn) ∧ t.AtEnd result content) := by
  have hstart : s.Feeding z bound isEnd result content (fed ++ s.nextIn) (s.nextIn.length + (bound - out.length)) :=
    .inl ⟨fed, out, h, rfl, rfl⟩
  have hrank : s.nextIn.length + (bound - out.length) ≤ fuel := by omega
  obtain ⟨t, ht, hcond, k, hfeeding⟩ := whileLoop_ends (fun hI hcond => hI.step hz hstream hcond) hstart hrank
  refine ⟨t, ht, ?_⟩
  rcases hfeeding with ⟨fed', out', hrun, hparts, -⟩ | hend
  · have hnil := nextIn_of_not_goesOn hcond hrun.zerror
    rw [hnil, List.append_nil] at hparts
    exact ⟨hnil, .inl ⟨out', hparts ▸ hrun⟩⟩
  · exact ⟨hend.2.nextIn, .inr hend⟩

theorem writeWith_of_closed {step : ZFlush → ZlibStream σ → ZlibStream σ} {close : ZlibStream σ → ZlibStream σ}
    {input : ZlibInput} (h : s.finished ∨ s.zerror ≠ .ok) :
    writeWith step close fuel input s = some (false, input, s) := if_pos h

/-- A `write`, in either form, lets zlib use all that it is handed. -/
theorem Running.write (close : ZlibStream σ → ZlibStream σ) {input : ZlibInput}
    (hz : z.Feeds stream bound isEnd result) (h : s.Running z bound isEnd content fed out)
    (hstream : fed ++ input.handed <+: stream) (hfuel : input.handed.length + bound ≤ fuel) :
    ∃ t, writeWith (transfer z) close fuel input s =
        some (((close t).zerror = .ok : Bool), input.retrieve 0, close t) ∧ t.nextIn = [] ∧
      ((∃ out', t.Running z bound isEnd content (fed ++ input.handed) out') ∨
        isEnd (fed ++ input.handed) ∧ t.AtEnd result content) := by
  have hset : (s.setInput input.bytes).Running z bound isEnd content fed out :=
    ⟨h.holds.setInput, h.reached, h.zerror, h.finished, h.le, h.notEnd, h.returned⟩
  obtain ⟨t, ht, hnil, hend⟩ := hset.loop hz hstream hfuel
  refine ⟨t, ?_, hnil, hend⟩
  have hopen : ¬ (s.finished ∨ s.zerror ≠ .ok) := by
    rw [h.finished, h.zerror]
    decide
  rw [writeWith, if_neg hopen, ht, Option.map_some, hnil]
  rfl

section WriteAll
variable {write : ZlibInput → ZlibStream σ → Option (Bool × ZlibInput × ZlibStream σ)} {inputs : List ZlibInput}
variable {results : List (Bool × ZlibInput)} {u : ZlibStream σ} {input left : ZlibInput} {ok : Bool}

theorem writeAll_cons (h : write input s = some (ok, left, t))
    (hrest : writeAll write inputs t = some (results, u)) :
    writeAll write (input :: inputs) s = some ((ok, left) :: results, u) := by
  simp only [writeAll, h, Option.bind_some, hrest, Option.map_some]

theorem writeAll_concat (h : writeAll write inputs s = some (results, t))
    (hlast : write input t = some (ok, left, u)) :
    writeAll write (inputs ++ [input]) s = some (results ++ [(ok, left)], u) := by
  induction inputs generalizing s results with
  | nil =>
    cases h
    exact writeAll_cons hlast rfl
  | cons first inputs ih =>
    obtain ⟨⟨ok', left', v⟩, hfirst, hmap⟩ := Option.bind_eq_some_iff.mp h
    obtain ⟨⟨results', w⟩, hrest, heq⟩ := Option.map_eq_some_iff.mp hmap
    cases heq
    exact writeAll_cons hfirst (ih hrest)

end WriteAll

/-- Any number of them, as long as the end is not reached. -/
theorem Running.writeAll (close : ZlibStream σ → ZlibStream σ) {inputs : List ZlibInput}
    (hclose : ∀ {t : ZlibStream σ}, t.zerror = .ok → close t = t) (hz : z.Feeds stream bound isEnd result)
    (h : s.Running z bound isEnd content fed out) (hnil : s.nextIn = [])
    (hstream : fed ++ inputs.flatMap (·.handed) <+: stream)
    (hend : ∀ p, p <+: fed ++ inputs.flatMap (·.handed) → ¬ isEnd p)
    (hfuel : stream.length + bound ≤ fuel) :
    ∃ t out', ZlibStream.writeAll (writeWith (transfer z) close fuel) inputs s =
        some (inputs.map fun input => (true, input.retrieve 0), t) ∧
      t.Running z bound isEnd content (fed ++ inputs.flatMap (·.handed)) out' ∧ t.nextIn = [] := by
  induction inputs generalizing s fed out with
  | nil => exact ⟨s, out, rfl, by rwa [List.flatMap_nil, List.append_nil], hnil⟩
  | cons input inputs ih =>
    rw [List.flatMap_cons, ← List.append_assoc] at hstream hend ⊢
    have hfirst : fed ++ input.handed <+: fed ++ input.handed ++ inputs.flatMap (·.handed) := List.prefix_append _ _
    have hlen : input.handed.length ≤ stream.length := by
      have hle := (hfirst.trans hstream).length_le
      rw [List.length_append] at hle
      omega
    have hfuel' : input.handed.length + bound ≤ fuel := by omega
    obtain ⟨t, hwrite, hnil', hrun | ⟨hisEnd, -⟩⟩ := h.write close hz (hfirst.trans hstream) hfuel'
    · obtain ⟨out', hrun⟩ := hrun
      rw [hclose hrun.zerror] at hwrite
      obtain ⟨u, out'', hrest, hrun', hnil''⟩ := ih hrun hnil' hstream hend
      rw [hrun.zerror] at hwrite
      exact ⟨u, out'', writeAll_cons hwrite hrest, hrun', hnil''⟩
    · exact absurd hisEnd (hend _ hfirst)

end ZlibStream

/-! ## The round trip -/

namespace ZlibStream
variable {σ : Type} {z : Zlib σ}

theorem Running.new {bound : Nat} {isEnd : Bytes → Prop} {output : Buffer} (hinit : z.init.1 = .ok)
    (hfree : output.free < 2 ^ 32) (hend : ¬ isEnd []) :
    (new z output.raw).Running z bound isEnd output.readableSpan [] [] where
  holds := ⟨⟨output, rfl, (List.append_nil _).symm, hfree⟩, (by decide : 0 < 1024), (by decide : 1024 ≤ 2 * 65536)⟩
  reached := .init
  zerror := hinit
  finished := rfl
  le := Nat.zero_le _
  notEnd := hend
  returned _ hp := absurd hp List.not_mem_nil

/-- A stream is begun, all inputs are written, and it is finished: all calls return true, the inputs are used up, and the
output has grown by `data`. -/
def Completes (write : ZlibInput → ZlibStream σ → Option (Bool × ZlibInput × ZlibStream σ))
    (finish : ZlibStream σ → Option (Bool × ZlibStream σ)) (z : Zlib σ) (output : Buffer) (inputs : List ZlibInput)
    (data : Bytes) : Prop :=
  ∃ results s t, writeAll write inputs (new z output.raw) = some (results, s) ∧ finish s = some (true, t) ∧
    results.length = inputs.length ∧ (∀ r ∈ results, r.1 ∧ r.2.Used) ∧
    t.output.readableSpan = output.readableSpan ++ data

theorem Holds.readableSpan {s : ZlibStream σ} {content : Bytes} (h : s.Holds content) :
    s.output.readableSpan = content := by
  obtain ⟨b, hraw, hspan, -⟩ := h.output
  rw [hraw, RawBuffer.raw_readableSpan, hspan]

theorem used_of_mem_map {inputs : List ZlibInput} :
    ∀ r ∈ inputs.map fun input => (true, input.retrieve 0), r.1 ∧ r.2.Used := by
  intro r hr
  obtain ⟨input, -, rfl⟩ := List.mem_map.mp hr
  exact ⟨rfl, input.used_retrieve⟩

end ZlibStream

namespace ZlibOutputStream
variable {σ : Type} {z : Zlib σ} {s : ZlibStream σ} {payload content : Bytes} {bound fuel : Nat}
open ZlibStream

/-- The invariant of the loop in `finish`, with its rank. -/
def Finishing (z : Zlib σ) (payload content : Bytes) (bound k : Nat) (s : ZlibStream σ) : Prop :=
  (s.nextIn = [] ∧ s.zerror = .ok ∧ ∃ f out, z.Reached f s.zstream payload out ∧ s.Holds (content ++ out) ∧
    k = bound - out.length + 1) ∨
  (s.zerror = .streamEnd ∧ z.finalize s.zstream = .ok ∧ ∃ y, z.Compressed payload y ∧ s.Holds (content ++ y))

theorem Finishing.step {k : Nat} (hz : z.Deflates payload)
    (hbound : ∀ {f : ZFlush} {s : σ} {fed out : Bytes}, z.Reached f s fed out → fed <+: payload → out.length ≤ bound)
    (h : Finishing z payload content bound k s) (hzerror : s.zerror = .ok) :
    ∃ k' < k, Finishing z payload content bound k' (compress z .finish s) := by
  rcases h with ⟨hnil, -, f, out, hreached, hholds, rfl⟩ | ⟨hend, -⟩
  · obtain ⟨hspace, hholds'⟩ : 0 < s.space ∧ (s.transfer z .finish).Holds _ := hholds.transfer
    have hresult : resultOf z .finish s = z.run .finish [] s.space s.zstream := by rw [resultOf, hnil]
    rw [List.append_assoc, hresult] at hholds'
    have hstatus : (s.transfer z .finish).zerror = (z.run .finish [] s.space s.zstream).status :=
      congrArg ZResult.status hresult
    have hstate : (s.transfer z .finish).zstream = (z.run .finish [] s.space s.zstream).state :=
      congrArg ZResult.state hresult
    rcases hz.finish hreached hspace with ⟨hok, hproduced⟩ | ⟨hend, hfinalize⟩
    · have hnext : z.Reached .finish (s.transfer z .finish).zstream payload
          (out ++ (z.run .finish [] s.space s.zstream).produced) := by
        have hrun := Zlib.Reached.run hreached (fun _ => rfl) hok
        rw [List.take_nil, List.append_nil] at hrun
        exact hstate ▸ hrun
      have hnil' : (s.transfer z .finish).nextIn = [] := List.eq_nil_of_length_eq_zero (by
        rw [ZlibStream.transfer, List.length_drop, hnil, List.length_nil, Nat.zero_sub])
      refine ⟨_, ?_, .inl ⟨hnil', hstatus.trans hok, _, _, hnext, hholds', rfl⟩⟩
      have hle := hbound hnext List.prefix_rfl
      have hpos := List.length_pos_iff.mpr hproduced
      rw [List.length_append] at hle ⊢
      omega
    · exact ⟨0, Nat.succ_pos _, .inr ⟨hstatus.trans hend, hstate ▸ hfinalize, _, ⟨_, _, _, _, hreached, hend, rfl⟩, hholds'⟩⟩
  · rw [hend] at hzerror
    cases hzerror

/-- `finish` completes the stream. -/
theorem finish_completes (hz : z.Deflates payload)
    (hbound : ∀ {f : ZFlush} {s : σ} {fed out : Bytes}, z.Reached f s fed out → fed <+: payload → out.length ≤ bound)
    {isEnd : Bytes → Prop} {out : Bytes} (h : s.Running z bound isEnd content payload out) (hnil : s.nextIn = [])
    (hfuel : bound + 1 ≤ fuel) :
    ∃ t y, finish z fuel s = some (true, t) ∧ z.Compressed payload y ∧ t.Holds (content ++ y) := by
  have hstart : Finishing z payload content bound (bound - out.length + 1) s :=
    .inl ⟨hnil, h.zerror, _, _, h.reached, h.holds, rfl⟩
  have hrank : bound - out.length + 1 ≤ fuel := by omega
  obtain ⟨t, ht, hcond, k, hfinishing⟩ :=
    whileLoop_ends (fun hI hcond => hI.step hz hbound (of_decide_eq_true hcond)) hstart hrank
  rcases hfinishing with ⟨-, hzerror, -⟩ | ⟨hzerror, hfinalize, y, hy, hholds⟩
  · exact absurd hzerror (of_decide_eq_false hcond)
  · refine ⟨{ t with finished := true, zerror := .streamEnd, ends := t.ends + 1 }, y, ?_, hy,
      ⟨hholds.output, hholds.bufferSize_pos, hholds.bufferSize_le⟩⟩
    have hfinished : ¬ s.finished := by
      rw [h.finished]
      exact Bool.false_ne_true
    rw [finish, if_neg hfinished, if_neg (not_not_intro h.zerror), flushAll, ht, Option.map_some]
    simp only [hzerror, hfinalize, and_self, decide_true, ↓reduceIte]

/-- Compression of a payload, cut in any way. -/
theorem completes (hz : z.Deflates payload) :
    ∃ fuel₀, ∀ fuel ≥ fuel₀, ∀ (output : Buffer) (inputs : List ZlibInput), output.free < 2 ^ 32 →
      inputs.flatMap (·.bytes) = payload → (∀ input ∈ inputs, input.bytes.length < 2 ^ 32) →
      ∃ y, z.Compressed payload y ∧ Completes (write z fuel) (finish z fuel) z output inputs y := by
  obtain ⟨bound, hfeeds, hbound⟩ := hz.feeds
  refine ⟨payload.length + bound + 1, fun fuel hfuel output inputs hfree hinputs hsize => ?_⟩
  rw [← ZlibInput.flatMap_handed hsize] at hinputs
  have hstart : (new z output.raw).Running z bound (fun _ => False) output.readableSpan [] [] :=
    Running.new hz.init hfree id
  have hfuel' : payload.length + bound ≤ fuel := Nat.le_of_succ_le hfuel
  have hstream : [] ++ inputs.flatMap (·.handed) <+: payload := hinputs ▸ List.prefix_rfl
  obtain ⟨s, out, hwrites, hrun, hnil⟩ := hstart.writeAll id (fun _ => rfl) hfeeds rfl hstream (fun _ _ => id) hfuel'
  rw [List.nil_append, hinputs] at hrun
  have hfuel'' : bound + 1 ≤ fuel := by omega
  obtain ⟨t, y, hfinish, hy, hholds⟩ := finish_completes hz hbound hrun hnil hfuel''
  exact ⟨y, hy, _, s, t, hwrites, hfinish, List.length_map _, used_of_mem_map, hholds.readableSpan⟩

end ZlibOutputStream

namespace ZlibInputStream
variable {σ : Type} {z : Zlib σ} {y payload : Bytes}
open ZlibStream

theorem markEnd_of_ok {s : ZlibStream σ} (h : s.zerror = .ok) : markEnd s = s := by
  rw [markEnd, h]
  rfl

theorem markEnd_of_streamEnd {s : ZlibStream σ} (h : s.zerror = .streamEnd) :
    markEnd s = { s with finished := true, zerror := .ok } := if_pos h

/-- A proper beginning of a stream is written, cut in any way: all of it is used, and the stream goes on. -/
theorem writeAll_before (hz : z.Inflates y payload) {fuel : Nat} (hfuel : y.length + payload.length ≤ fuel)
    {output : Buffer} (hfree : output.free < 2 ^ 32) {inputs : List ZlibInput}
    (hbegin : inputs.flatMap (·.handed) <+: y) (hproper : inputs.flatMap (·.handed) ≠ y) :
    ∃ s out, writeAll (write z fuel) inputs (new z output.raw) =
        some (inputs.map fun input => (true, input.retrieve 0), s) ∧
      s.Running z payload.length (· = y) output.readableSpan (inputs.flatMap (·.handed)) out ∧ s.nextIn = [] := by
  have hstart : (new z output.raw).Running z payload.length (· = y) output.readableSpan [] [] :=
    Running.new hz.init hfree hz.nonempty.symm
  have hbefore : ∀ p, p <+: [] ++ inputs.flatMap (·.handed) → p ≠ y := by
    intro p hp heq
    rw [List.nil_append, heq] at hp
    exact hproper (hbegin.eq_of_length_le hp.length_le)
  exact hstart.writeAll markEnd markEnd_of_ok hz.feeds rfl hbegin hbefore hfuel

/-- Decompression of a complete stream, cut in any way that ends with it. -/
theorem completes (hz : z.Inflates y payload) {fuel : Nat} (hfuel : y.length + payload.length ≤ fuel) {output : Buffer}
    (hfree : output.free < 2 ^ 32) {inputs : List ZlibInput} {last : ZlibInput}
    (hinputs : (inputs ++ [last]).flatMap (·.bytes) = y) (hlast : last.bytes ≠ [])
    (hsize : ∀ input ∈ inputs ++ [last], input.bytes.length < 2 ^ 32) :
    Completes (write z fuel) (finish z fuel) z output (inputs ++ [last]) payload := by
  have hlast' : last.handed = last.bytes :=
    ZlibInput.handed_eq (hsize last (List.mem_append_right _ List.mem_cons_self))
  rw [← ZlibInput.flatMap_handed hsize, List.flatMap_append, List.flatMap_singleton] at hinputs
  rw [← hlast'] at hlast
  have hproper : inputs.flatMap (·.handed) ≠ y := fun heq => hlast (List.append_right_eq_self.mp (hinputs.trans heq.symm))
  obtain ⟨s, out, hwrites, hrun, -⟩ := writeAll_before hz hfuel hfree ⟨_, hinputs⟩ hproper
  have hfuel' : last.handed.length + payload.length ≤ fuel := by
    rw [← hinputs, List.length_append] at hfuel
    omega
  obtain ⟨t, hwrite, -, ⟨out', hrun'⟩ | ⟨-, hend⟩⟩ := hrun.write markEnd hz.feeds (hinputs ▸ List.prefix_rfl)
    hfuel'
  · exact absurd hinputs hrun'.notEnd
  · obtain ⟨out', hholds, rfl⟩ := hend.holds
    rw [markEnd_of_streamEnd hend.zerror] at hwrite
    refine ⟨_, _, _, writeAll_concat hwrites hwrite, if_pos rfl, ?_, ?_, hholds.readableSpan⟩
    · rw [List.length_append, List.length_append, List.length_map]
      rfl
    · rw [List.forall_mem_append]
      refine ⟨used_of_mem_map, fun r hr => ?_⟩
      rw [List.mem_singleton.mp hr]
      exact ⟨rfl, last.used_retrieve⟩

end ZlibInputStream

/-- Compression and decompression, for every payload and every way of cutting it and of cutting what comes out, as long as
nothing is written behind the end of the stream: every call returns true, the inputs are used up, every loop ends, and
the payload comes back behind what the buffer held before. -/
theorem zlib_round_trip {δ ι : Type} {zd : Zlib δ} {zi : Zlib ι} {payload : Bytes} (hd : zd.Deflates payload)
    (hi : ∀ y, zd.Compressed payload y → zi.Inflates y payload) {compressed : Buffer} (hfree : compressed.free < 2 ^ 32)
    {inputs : List ZlibInput} (hinputs : inputs.flatMap (·.bytes) = payload)
    (hsize : ∀ input ∈ inputs, input.bytes.length < 2 ^ 32) :
    ∃ fuel₀, ∀ fuel ≥ fuel₀, ∃ y,
      ZlibStream.Completes (ZlibOutputStream.write zd fuel) (ZlibOutputStream.finish zd fuel) zd compressed inputs y ∧
      ∀ (plain : Buffer) (pieces : List ZlibInput) (last : ZlibInput), plain.free < 2 ^ 32 →
        (pieces ++ [last]).flatMap (·.bytes) = y → last.bytes ≠ [] →
        (∀ piece ∈ pieces ++ [last], piece.bytes.length < 2 ^ 32) →
        ∃ fuel₁, ∀ fuel ≥ fuel₁,
          ZlibStream.Completes (ZlibInputStream.write zi fuel) (ZlibInputStream.finish zi fuel) zi plain
            (pieces ++ [last]) payload := by
  obtain ⟨fuel₀, hcompletes⟩ := ZlibOutputStream.completes hd
  refine ⟨fuel₀, fun fuel hfuel => ?_⟩
  obtain ⟨y, hy, hout⟩ := hcompletes fuel hfuel compressed inputs hfree hinputs hsize
  exact ⟨y, hout, fun plain pieces last hfree' hpieces hlast hsize' =>
    ⟨y.length + payload.length, fun _ hfuel' =>
      ZlibInputStream.completes (hi y hy) hfuel' hfree' hpieces hlast hsize'⟩⟩

/-- One byte, in a `Buffer` behind an empty string. -/
theorem zlib_round_trip_letter :
    ∃ fuel₀, ∀ fuel ≥ fuel₀, ∃ y,
      ZlibStream.Completes (ZlibOutputStream.write Zlib.sampleDeflate fuel) (ZlibOutputStream.finish Zlib.sampleDeflate fuel)
        Zlib.sampleDeflate (Buffer.new 0) [.string [], .buffer ((Buffer.new 16).append Zlib.samplePayload)] y ∧
      ∀ (plain : Buffer) (pieces : List ZlibInput) (last : ZlibInput), plain.free < 2 ^ 32 →
        (pieces ++ [last]).flatMap (·.bytes) = y → last.bytes ≠ [] →
        (∀ piece ∈ pieces ++ [last], piece.bytes.length < 2 ^ 32) →
        ∃ fuel₁, ∀ fuel ≥ fuel₁,
          ZlibStream.Completes (ZlibInputStream.write Zlib.sampleInflate fuel)
            (ZlibInputStream.finish Zlib.sampleInflate fuel) Zlib.sampleInflate plain (pieces ++ [last])
            Zlib.samplePayload := by
  have hbytes : (ZlibInput.buffer ((Buffer.new 16).append Zlib.samplePayload)).bytes = Zlib.samplePayload := by
    rw [ZlibInput.bytes, Buffer.readableSpan_append, Buffer.readableSpan_new, List.nil_append]
  refine zlib_round_trip Zlib.deflates_sampleDeflate
    (fun y hy => Zlib.eq_of_compressed hy ▸ Zlib.inflates_sampleInflate) (by decide) ?_ fun input hinput => ?_
  · rw [List.flatMap_cons, List.flatMap_singleton, hbytes]
    rfl
  · rcases List.mem_cons.mp hinput with rfl | hinput
    · decide
    · rw [List.mem_singleton.mp hinput, hbytes]
      decide

/-- The whole stream is written, and then an empty string, which is behind its end: the second `write` returns false. -/
theorem zlib_write_behind_end :
    Zlib.sampleDeflate.Deflates Zlib.samplePayload ∧
    Zlib.sampleDeflate.Compressed Zlib.samplePayload Zlib.sampleStream ∧
    Zlib.sampleInflate.Inflates Zlib.sampleStream Zlib.samplePayload ∧
    ∀ fuel ≥ 10, ∃ s, ZlibStream.writeAll (ZlibInputStream.write Zlib.sampleInflate fuel)
      [.string Zlib.sampleStream, .string []] (ZlibStream.new Zlib.sampleInflate (Buffer.new 0).raw) =
        some ([(true, .string Zlib.sampleStream), (false, .string [])], s) := by
  refine ⟨Zlib.deflates_sampleDeflate, ?_, Zlib.inflates_sampleInflate, fun fuel hfuel => ?_⟩
  · obtain ⟨fuel₀, hcompletes⟩ := ZlibOutputStream.completes Zlib.deflates_sampleDeflate
    obtain ⟨y, hy, -⟩ := hcompletes fuel₀ (Nat.le_refl _) (Buffer.new 0) [.string Zlib.samplePayload] (by decide) rfl (by decide)
    exact Zlib.eq_of_compressed hy ▸ hy
  · have hfeeds := Zlib.inflates_sampleInflate.feeds
    have hstart : (ZlibStream.new Zlib.sampleInflate (Buffer.new 0).raw).Running Zlib.sampleInflate 1
        (· = Zlib.sampleStream) (Buffer.new 0).readableSpan [] [] :=
      .new rfl (by decide) (List.cons_ne_nil _ _).symm
    have hstream : [] ++ (ZlibInput.string Zlib.sampleStream).handed <+: Zlib.sampleStream := List.prefix_rfl
    obtain ⟨t, hwrite, -, ⟨out, hrun⟩ | ⟨-, hend⟩⟩ := hstart.write ZlibInputStream.markEnd hfeeds hstream hfuel
    · exact absurd rfl hrun.notEnd
    · rw [ZlibInputStream.markEnd_of_streamEnd hend.zerror] at hwrite
      exact ⟨_, ZlibStream.writeAll_cons hwrite
        (ZlibStream.writeAll_cons (ZlibStream.writeWith_of_closed (.inl rfl)) rfl)⟩

end Muduo
