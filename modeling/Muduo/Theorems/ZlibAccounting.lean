import Muduo.Theorems.ZlibStream

/-! # The bytes of compressed streams

What `write` takes from its input, and what `decompress` and `compress` mark as written, against what zlib has consumed and
produced. zlib may do anything within `avail_in` and `avail_out`; those are sizes of 64 bits that were narrowed to 32. -/

namespace Muduo
open Lib

theorem uInt_eq_iff {n : Nat} : uInt n = n ↔ n < 2 ^ 32 := by
  unfold uInt
  omega

namespace ZlibStream
variable {σ : Type} {z : Zlib σ} {s t : ZlibStream σ} {b input : Buffer} {flush : ZFlush} {fuel : Nat}
variable {content handed : Bytes} {seen : List (ZlibStream σ)}

/-- What zlib consumes of its input in one turn of `write`. -/
def consumed (z : Zlib σ) (s : ZlibStream σ) : Bytes := s.nextIn.take (resultOf z .noFlush s).consumed

def produced (z : Zlib σ) (s : ZlibStream σ) : Bytes := (resultOf z .noFlush s).produced

theorem consumed_append_nextIn : consumed z s ++ (s.transfer z .noFlush).nextIn = s.nextIn := List.take_append_drop _ _

/-- The states in which `write` calls zlib. -/
def writeCalls (z : Zlib σ) (fuel : Nat) (input : ZlibInput) (s : ZlibStream σ) : List (ZlibStream σ) :=
  if s.finished ∨ s.zerror ≠ .ok then [] else turns goesOn (transfer z .noFlush) fuel (s.setInput input.bytes)

/-! ## One call -/

theorem space_eq_iff : s.space = s.writableSize ↔ s.writableSize < 2 ^ 32 := uInt_eq_iff

/-- The output after a call, when it was a buffer before. -/
theorem readableSpan_transfer (h : s.output = b.raw) :
    ∃ (b' : Buffer) (stale : Bytes), (s.transfer z flush).output = b'.raw ∧
      b'.readableSpan = b.readableSpan ++ (resultOf z flush s).produced ++ stale ∧
      stale.length = s.writableSize - s.space := by
  obtain ⟨stale, hroom, hstale, houtput⟩ : ∃ stale _, _ ∧ (s.transfer z flush).output = _ := output_transfer h
  refine ⟨_, stale, houtput, ?_, hstale⟩
  rw [Buffer.readableSpan_write, Buffer.readableSpan_ensureWritableBytes, List.append_assoc]

/-! ## The loop of a `write` -/

/-- Before the next turn: zlib has consumed the front of what it was handed, and the output has grown by what it has
produced and by stale bytes, which there are none of as long as the sizes are in the range of `uInt`. -/
structure Accounted (z : Zlib σ) (content handed : Bytes) (seen : List (ZlibStream σ)) (s : ZlibStream σ) : Prop where
  nextIn : seen.flatMap (consumed z) ++ s.nextIn = handed
  output : ∃ (b : Buffer) (stale : Nat), s.output = b.raw ∧
    b.readableBytes = (content ++ seen.flatMap (produced z)).length + stale ∧
    (stale = 0 → b.readableSpan = content ++ seen.flatMap (produced z)) ∧
    (stale = 0 ↔ ∀ c ∈ seen, c.writableSize < 2 ^ 32)

theorem accounted_start (h : s.output = b.raw) : s.Accounted z b.readableSpan s.nextIn [] where
  nextIn := rfl
  output := ⟨b, 0, h, by rw [List.flatMap_nil, List.append_nil, Buffer.length_readableSpan, Nat.add_zero],
    fun _ => (List.append_nil _).symm, iff_of_true rfl (List.forall_mem_nil _)⟩

/-- One turn. -/
theorem Accounted.step (h : s.Accounted z content handed seen) :
    (s.transfer z .noFlush).Accounted z content handed (seen ++ [s]) := by
  obtain ⟨hnextIn, b, stale, hraw, hlength, hspan, hstale⟩ := h
  have hgrown : content ++ (seen ++ [s]).flatMap (produced z) = content ++ seen.flatMap (produced z) ++ produced z s := by
    rw [List.flatMap_append, List.flatMap_singleton, List.append_assoc]
  constructor
  · rw [List.flatMap_append, List.flatMap_singleton, List.append_assoc, consumed_append_nextIn, hnextIn]
  · obtain ⟨b', hidden, hraw', hspan', hhidden⟩ :
        ∃ (b' : Buffer) (hidden : Bytes), (s.transfer z .noFlush).output = b'.raw ∧ _ ∧ _ := readableSpan_transfer hraw
    have hnone : hidden.length = 0 ↔ s.writableSize < 2 ^ 32 := by
      have hle := s.space_le
      rw [← space_eq_iff, hhidden]
      omega
    refine ⟨b', stale + hidden.length, hraw', ?_, ?_, ?_⟩
    · rw [← Buffer.length_readableSpan, hspan', hgrown, List.length_append, List.length_append, List.length_append,
        Buffer.length_readableSpan, hlength, produced]
      omega
    · intro hzero
      have hempty : hidden = [] := List.length_eq_zero_iff.mp (by omega)
      rw [hspan', hspan (by omega), hempty, List.append_nil, hgrown, produced]
    · rw [List.forall_mem_append, List.forall_mem_singleton, ← hstale, ← hnone]
      omega

theorem Accounted.front (h : s.Accounted z content handed seen) : seen.flatMap (consumed z) <+: handed :=
  ⟨s.nextIn, h.nextIn⟩

theorem Accounted.loop (h : s.Accounted z content handed []) (hloop : whileLoop goesOn (transfer z .noFlush) fuel s = some t) :
    t.Accounted z content handed (turns goesOn (transfer z .noFlush) fuel s) :=
  whileLoop_turns (fun hs _ => hs.step) h hloop

theorem consumed_turns : (turns goesOn (transfer z .noFlush) fuel s).flatMap (consumed z) <+: s.nextIn := by
  induction fuel generalizing s with
  | zero => exact List.nil_prefix
  | succ fuel ih =>
    rw [turns]
    split
    · rw [List.flatMap_cons, ← consumed_append_nextIn]
      exact List.prefix_append_right_inj _ |>.mpr ih
    · exact List.nil_prefix

/-- Turns that each consume or produce something are no more than the bytes. -/
theorem length_le_of_progress {calls : List (ZlibStream σ)} (h : ∀ c ∈ calls, consumed z c ≠ [] ∨ produced z c ≠ []) :
    calls.length ≤ (calls.flatMap (consumed z)).length + (calls.flatMap (produced z)).length := by
  induction calls with
  | nil => exact Nat.zero_le _
  | cons c calls ih =>
    obtain ⟨hc, hcalls⟩ := List.forall_mem_cons.mp h
    have hmoves : 0 < (consumed z c).length + (produced z c).length := by
      rcases hc with hne | hne
      · exact Nat.add_pos_left (List.length_pos_iff.mpr hne) _
      · exact Nat.add_pos_right _ (List.length_pos_iff.mpr hne)
    have hrest := ih hcalls
    rw [List.flatMap_cons, List.flatMap_cons, List.length_append, List.length_append, List.length_cons]
    omega

/-- A loop that makes progress and has enough turns ends. -/
theorem isSome_loop {bound : Nat}
    (hprogress : ∀ c ∈ turns goesOn (transfer z .noFlush) fuel s, consumed z c ≠ [] ∨ produced z c ≠ [])
    (hbound : ((turns goesOn (transfer z .noFlush) fuel s).flatMap (produced z)).length ≤ bound)
    (hfuel : s.nextIn.length + bound < fuel) : (whileLoop goesOn (transfer z .noFlush) fuel s).isSome := by
  by_contra hnone
  have hturns := length_turns (Option.not_isSome_iff_eq_none.mp hnone)
  have hfront : (turns goesOn (transfer z .noFlush) fuel s).flatMap (consumed z) <+: s.nextIn := consumed_turns
  have hconsumed := hfront.length_le
  have hle := length_le_of_progress hprogress
  omega

/-! ## A `write` -/

/-- What becomes of the bytes in a `write` of the buffer `input`, when the output holds `content` before: zlib consumes a
front part, and it and what is left are the input exactly if the size of the input is in the range of `uInt`; the output
grows by what zlib produces exactly if the sizes of its space are in that range. -/
structure Accounts (z : Zlib σ) (content : Bytes) (input : Buffer) (s : ZlibStream σ) (calls : List (ZlibStream σ))
    (left : Buffer) (t : ZlibStream σ) : Prop where
  front : calls.flatMap (consumed z) <+: input.readableSpan
  retrieved : calls.flatMap (consumed z) ++ left.readableSpan = input.readableSpan ↔
    (s.finished ∨ s.zerror ≠ .ok) ∨ input.readableBytes < 2 ^ 32
  marked : ∃ b : Buffer, t.output = b.raw ∧
    (b.readableSpan = content ++ calls.flatMap (produced z) ↔ ∀ c ∈ calls, c.writableSize < 2 ^ 32)

theorem Accounted.accounts {close : ZlibStream σ → ZlibStream σ} (hclose : (close t).output = t.output)
    (hopen : ¬(s.finished ∨ s.zerror ≠ .ok)) (h : t.Accounted z content (ZlibInput.buffer input).handed seen) :
    Accounts z content input s seen (input.retrieve (input.readableBytes - t.nextIn.length)) (close t) where
  front := h.front.trans (List.take_prefix _ _)
  retrieved := by
    have hle : uInt input.readableBytes ≤ input.readableBytes := Nat.mod_le _ _
    have hhanded : (ZlibInput.buffer input).handed = input.readableSpan.take (uInt input.readableBytes) :=
      congrArg (fun n => input.readableSpan.take (uInt n)) input.length_readableSpan
    have hlength : (seen.flatMap (consumed z)).length + t.nextIn.length = uInt input.readableBytes := by
      rw [← List.length_append, h.nextIn, hhanded, List.length_take, Buffer.length_readableSpan, Nat.min_eq_left hle]
    rw [or_iff_right hopen, Buffer.readableSpan_retrieve, ← uInt_eq_iff]
    constructor
    · intro heq
      have hparts := congrArg List.length heq
      rw [List.length_append, List.length_drop, Buffer.length_readableSpan] at hparts
      omega
    · intro heq
      have hwhole : seen.flatMap (consumed z) ++ t.nextIn = input.readableSpan := by
        rw [h.nextIn, hhanded, heq, ← Buffer.length_readableSpan, List.take_length]
      have hfront : input.readableBytes - t.nextIn.length = (seen.flatMap (consumed z)).length := by omega
      rw [hfront, ← hwhole, List.drop_left]
  marked := by
    obtain ⟨b, stale, hraw, hlength, hspan, hstale⟩ := h.output
    refine ⟨b, hclose.trans hraw, ?_⟩
    rw [← hstale]
    refine ⟨fun heq => ?_, hspan⟩
    rw [← Buffer.length_readableSpan, heq] at hlength
    omega

/-- `write` of either stream. -/
theorem accounts_writeWith {close : ZlibStream σ → ZlibStream σ} {ok : Bool} {rest : ZlibInput}
    (hclose : ∀ t, (close t).output = t.output) (houtput : s.output = b.raw)
    (h : writeWith (transfer z) close fuel (.buffer input) s = some (ok, rest, t)) :
    ∃ left, rest = .buffer left ∧ Accounts z b.readableSpan input s (writeCalls z fuel (.buffer input) s) left t := by
  by_cases hclosed : s.finished ∨ s.zerror ≠ .ok
  · rw [writeWith_of_closed hclosed] at h
    cases h
    rw [writeCalls, if_pos hclosed]
    exact ⟨input, rfl, List.nil_prefix, iff_of_true rfl (.inl hclosed), b, houtput,
      iff_of_true (List.append_nil _).symm (List.forall_mem_nil _)⟩
  · rw [writeWith, if_neg hclosed] at h
    obtain ⟨u, hloop, heq⟩ := Option.map_eq_some_iff.mp h
    cases heq
    rw [writeCalls, if_neg hclosed]
    have hstart : (s.setInput (ZlibInput.buffer input).bytes).Accounted z b.readableSpan _ [] := accounted_start houtput
    exact ⟨_, rfl, (hstart.loop hloop).accounts (hclose u) hclosed⟩

theorem isSome_writeWith {close : ZlibStream σ → ZlibStream σ} {bound : Nat}
    (hprogress : ∀ c ∈ writeCalls z fuel (.buffer input) s, consumed z c ≠ [] ∨ produced z c ≠ [])
    (hbound : ((writeCalls z fuel (.buffer input) s).flatMap (produced z)).length ≤ bound)
    (hfuel : input.readableBytes + bound < fuel) : (writeWith (transfer z) close fuel (.buffer input) s).isSome := by
  by_cases hclosed : s.finished ∨ s.zerror ≠ .ok
  · rw [writeWith_of_closed hclosed]
    rfl
  · rw [writeCalls, if_neg hclosed] at hprogress hbound
    rw [writeWith, if_neg hclosed, Option.isSome_map]
    refine isSome_loop hprogress hbound (Nat.lt_of_le_of_lt (Nat.add_le_add_right ?_ _) hfuel)
    exact Nat.le_trans (List.length_take_le' _ _) (Nat.le_of_eq input.length_readableSpan)

theorem output_markEnd (s : ZlibStream σ) : (ZlibInputStream.markEnd s).output = s.output := by
  unfold ZlibInputStream.markEnd
  split <;> rfl

/-- For all that zlib may do, and for buffers of all sizes: `decompress` and `compress` mark as written what zlib has
produced, exactly if the size of the space was in the range of `uInt`; both forms of `write` account for the bytes in the
same way, and return if zlib makes progress. -/
theorem bytes_accounted (z : Zlib σ) (houtput : s.output = b.raw) :
    (∀ step ∈ [ZlibInputStream.decompress z, ZlibOutputStream.compress z], ∀ flush, ∃ b' : Buffer,
      (step flush s).output = b'.raw ∧
      (b'.readableSpan = b.readableSpan ++ (resultOf z flush s).produced ↔ s.writableSize < 2 ^ 32)) ∧
    ∀ write ∈ [ZlibInputStream.write z, ZlibOutputStream.write z], ∀ (input : Buffer) (fuel : Nat),
      let calls := writeCalls z fuel (.buffer input) s
      (∀ ok rest t, write fuel (.buffer input) s = some (ok, rest, t) →
        ∃ left, rest = .buffer left ∧ Accounts z b.readableSpan input s calls left t) ∧
      ∀ bound, (∀ c ∈ calls, consumed z c ≠ [] ∨ produced z c ≠ []) → (calls.flatMap (produced z)).length ≤ bound →
        input.readableBytes + bound < fuel → (write fuel (.buffer input) s).isSome := by
  have hcall : ∀ flush, ∃ b' : Buffer, (s.transfer z flush).output = b'.raw ∧
      (b'.readableSpan = b.readableSpan ++ (resultOf z flush s).produced ↔ s.writableSize < 2 ^ 32) := by
    intro flush
    obtain ⟨b', stale, hraw, hspan, hstale⟩ :
        ∃ (b' : Buffer) (stale : Bytes), (s.transfer z flush).output = b'.raw ∧ _ ∧ _ := readableSpan_transfer houtput
    refine ⟨b', hraw, ?_⟩
    have hle := s.space_le
    rw [hspan, List.append_right_eq_self, ← List.length_eq_zero_iff, hstale, ← space_eq_iff]
    omega
  refine ⟨List.forall_mem_cons.mpr ⟨hcall, List.forall_mem_singleton.mpr hcall⟩, ?_⟩
  refine List.forall_mem_cons.mpr ⟨fun input fuel => ?_, List.forall_mem_singleton.mpr fun input fuel => ?_⟩
  · exact ⟨fun _ _ _ h => accounts_writeWith output_markEnd houtput h, fun _ => isSome_writeWith⟩
  · exact ⟨fun _ _ _ h => accounts_writeWith (fun _ => rfl) houtput h, fun _ => isSome_writeWith⟩

/-- A payload is compressed. -/
theorem payload_accounted :
    let s := new Zlib.sampleDeflate (Buffer.new 0).raw
    let input := (Buffer.new 16).append Zlib.samplePayload
    let calls := writeCalls Zlib.sampleDeflate 10 (.buffer input) s
    ∃ ok left t, ZlibOutputStream.write Zlib.sampleDeflate 10 (.buffer input) s = some (ok, .buffer left, t) ∧
      calls.flatMap (consumed Zlib.sampleDeflate) ++ left.readableSpan = Zlib.samplePayload ∧
      ∃ b : Buffer, t.output = b.raw ∧ b.readableSpan = calls.flatMap (produced Zlib.sampleDeflate) := by
  intro s input calls
  have hbytes : input.readableBytes + 2 < 10 := by decide +kernel
  have hprogress : ∀ c ∈ calls, consumed Zlib.sampleDeflate c ≠ [] ∨ produced Zlib.sampleDeflate c ≠ [] := by
    decide +kernel
  have hbound : (calls.flatMap (produced Zlib.sampleDeflate)).length ≤ 2 := by decide +kernel
  have hcalls : ∀ c ∈ calls, c.writableSize < 2 ^ 32 := by decide +kernel
  obtain ⟨-, hwrite⟩ := bytes_accounted Zlib.sampleDeflate (s := s) rfl
  obtain ⟨haccounts, hreturns⟩ := hwrite _ (.tail _ List.mem_cons_self) input 10
  obtain ⟨⟨ok, rest, t⟩, hresult⟩ := Option.isSome_iff_exists.mp (hreturns 2 hprogress hbound hbytes)
  obtain ⟨left, rfl, -, hretrieved, b, hraw, hmarked⟩ := haccounts ok rest t hresult
  have hspan := hmarked.mpr hcalls
  rw [Buffer.readableSpan_new, List.nil_append] at hspan
  have hinput : input.readableSpan = Zlib.samplePayload := Buffer.readableSpan_append
  have hparts := hretrieved.mpr (.inr (by omega))
  rw [hinput] at hparts
  exact ⟨ok, left, t, hresult, hparts, b, hraw, hspan⟩

/-- An input whose size is a multiple of the range is retrieved without a call of zlib. -/
theorem writeWith_of_uInt_eq_zero {step : ZFlush → ZlibStream σ → ZlibStream σ} {close : ZlibStream σ → ZlibStream σ}
    (hopen : ¬(s.finished ∨ s.zerror ≠ .ok)) (h : uInt input.readableBytes = 0) :
    writeWith step close fuel (.buffer input) s =
      some (((close { s with nextIn := [] }).zerror = .ok : Bool), .buffer (input.retrieve input.readableBytes),
        close { s with nextIn := [] }) := by
  have hset : s.setInput (ZlibInput.buffer input).bytes = { s with nextIn := [] } := by
    rw [setInput, ZlibInput.bytes, Buffer.length_readableSpan, h, List.take_zero]
  have hstop : goesOn { s with nextIn := [] } = false := decide_eq_false fun h => h.1 rfl
  rw [writeWith, if_neg hopen, hset, whileLoop_of_not hstop]
  rfl

/-- Without space zlib produces nothing, and all the space becomes readable. -/
theorem readableBytes_transfer_of_space (h : s.output = b.raw) (hspace : s.space = 0) :
    (resultOf z flush s).produced = [] ∧ (s.transfer z flush).output.readableBytes = b.readableBytes + s.writableSize := by
  have hle : (resultOf z flush s).produced.length ≤ s.space := z.produced_le
  have hnone : (resultOf z flush s).produced = [] := List.length_eq_zero_iff.mp (by omega)
  obtain ⟨b', stale, hraw, hspan, hstale⟩ :
      ∃ (b' : Buffer) (stale : Bytes), (s.transfer z flush).output = b'.raw ∧ _ ∧ _ := readableSpan_transfer h
  refine ⟨hnone, ?_⟩
  rw [hraw, RawBuffer.raw_readableBytes, ← Buffer.length_readableSpan, hspan, hnone, List.append_nil, List.length_append,
    hstale, hspace, Buffer.length_readableSpan, Nat.sub_zero]

theorem writableSize_new {n : Nat} (h : 1024 ≤ n) : (new z (Buffer.new n).raw).writableSize = n := by
  have hwritable : (Buffer.new n).writableBytes = n := by
    simp only [Buffer.new, Buffer.writableBytes, List.length_replicate, Nat.add_sub_cancel_left]
  have hkeeps : ((Buffer.new n).ensureWritableBytes 1024).val = Buffer.new n := by
    rw [Buffer.ensureWritableBytes, dif_neg (by omega)]
  rw [writableSize_raw rfl]
  exact (congrArg Buffer.writableBytes hkeeps).trans hwritable

/-- 4 GiB of input are dropped unread: `avail_in` is 0. With 4 GiB of space, `avail_out` is 0, and as many bytes become
readable that zlib has not written. -/
theorem bytes_dropped :
    (∃ input left t, ZlibOutputStream.write Zlib.sampleDeflate 1 (.buffer input)
        (new Zlib.sampleDeflate (Buffer.new 0).raw) = some (true, .buffer left, t) ∧
      input.readableSpan = List.replicate (2 ^ 32) 0 ∧ left.readableSpan = [] ∧ t.returned = []) ∧
    ∃ s : ZlibStream (Bytes × Nat), s = new Zlib.sampleDeflate (Buffer.new (2 ^ 32)).raw ∧ s.output.readableBytes = 0 ∧
      (resultOf Zlib.sampleDeflate .noFlush s).produced = [] ∧
      (ZlibOutputStream.compress Zlib.sampleDeflate .noFlush s).output.readableBytes = 2 ^ 32 := by
  constructor
  · let input := (Buffer.new 0).append (List.replicate (2 ^ 32) 0)
    have hspan : input.readableSpan = List.replicate (2 ^ 32) 0 := Buffer.readableSpan_append
    have hsize : uInt input.readableBytes = 0 := by
      rw [← Buffer.length_readableSpan, hspan, List.length_replicate, uInt, Nat.mod_self]
    have hleft : (input.retrieve input.readableBytes).readableSpan = [] := by
      rw [Buffer.readableSpan_retrieve, ← Buffer.length_readableSpan, List.drop_length]
    exact ⟨input, _, _, writeWith_of_uInt_eq_zero (by decide) hsize, hspan, hleft, rfl⟩
  · have hsize := writableSize_new (z := Zlib.sampleDeflate) (n := 2 ^ 32) (by decide)
    have hspace : (new Zlib.sampleDeflate (Buffer.new (2 ^ 32)).raw).space = 0 :=
      (congrArg uInt hsize).trans (Nat.mod_self _)
    obtain ⟨hnone, hreadable⟩ := readableBytes_transfer_of_space (z := Zlib.sampleDeflate) rfl hspace
    refine ⟨_, rfl, rfl, hnone, ?_⟩
    exact hreadable.trans (by rw [hsize]; rfl)

end ZlibStream
end Muduo
