import Muduo.ProtobufCodec

/-! # Frames out of a stream

On its readable bytes alone `onMessage` is an incremental reader whose state is the messages delivered. Its results
are the same however the stream is cut (`Lib.Reader.feed_eq`), and are those of a reference that first splits the
stream into frames and then parses them. -/

namespace Muduo.ProtobufCodec
open Lib
variable {M : Type} {c : ProtobufCodec M} {s : CodecState M} {l : Bytes} {ms : List M} {n : Nat} {code : ErrorCode}

/-! ## The reader -/

/-- What one turn of the loop finds at the front of the readable bytes. -/
inductive Verdict (M : Type) where
  | incomplete
  /-- A frame of `n` bytes, with its message unless the raw callback dropped it. -/
  | frame (n : Nat) (m : Option M)
  | error (code : ErrorCode)

def verdict (c : ProtobufCodec M) (l : Bytes) : Verdict M :=
  if c.kMinMessageLen + kHeaderLen ≤ l.length then
    let len := (asInt32 l).toInt
    if (kMaxMessageLen : Int) < len ∨ len < c.kMinMessageLen then .error .kInvalidLength
    else if l.length < kHeaderLen + len.toNat then .incomplete
    else if c.drops (l.take (kHeaderLen + len.toNat)) then .frame (kHeaderLen + len.toNat) none
    else
      match c.parse (slice l kHeaderLen (kHeaderLen + len.toNat)) with
      | .ok m => .frame (kHeaderLen + len.toNat) (some m)
      | .error code => .error code
  else .incomplete

theorem asInt32_append (h : 4 ≤ l.length) (more : Bytes) : asInt32 (l ++ more) = asInt32 l := by
  rw [asInt32, asInt32, List.take_append_of_le_length h]

theorem verdict_append (h : c.verdict l ≠ .incomplete) (more : Bytes) : c.verdict (l ++ more) = c.verdict l := by
  unfold verdict at h ⊢
  by_cases hmin : c.kMinMessageLen + kHeaderLen ≤ l.length
  · have hmin' : c.kMinMessageLen + kHeaderLen ≤ (l ++ more).length := by
      rw [List.length_append]
      omega
    have hhead : asInt32 (l ++ more) = asInt32 l := asInt32_append (by simp only [kHeaderLen] at hmin; omega) more
    simp only [if_pos hmin, if_pos hmin', hhead] at h ⊢
    split
    · rfl
    · rename_i hvalid
      rw [if_neg hvalid] at h
      by_cases hfull : l.length < kHeaderLen + (asInt32 l).toInt.toNat
      · rw [if_pos hfull] at h
        exact absurd rfl h
      · have hfull' : ¬(l ++ more).length < kHeaderLen + (asInt32 l).toInt.toNat := by
          rw [List.length_append]
          omega
        have hlen := Nat.le_of_not_lt hfull
        rw [if_neg hfull, if_neg hfull', List.take_append_of_le_length hlen, slice_append_right hlen]
  · rw [if_neg hmin] at h
    exact absurd rfl h

theorem frame_bounds {m : Option M} (h : c.verdict l = .frame n m) : 0 < n ∧ n ≤ l.length := by
  unfold verdict at h
  split at h
  · simp only at h
    split at h
    · cases h
    · split at h
      · cases h
      · rename_i hlen
        have hpos : 0 < kHeaderLen + (asInt32 l).toInt.toNat := Nat.add_pos_left (by decide) _
        have hle := Nat.le_of_not_lt hlen
        split at h
        · cases h
          exact ⟨hpos, hle⟩
        · split at h
          · cases h
            exact ⟨hpos, hle⟩
          · cases h
  · cases h

/-- The state of the reader is the messages delivered, newest first. -/
def next (c : ProtobufCodec M) (ms : List M) (l : Bytes) : Outcome (List M) ErrorCode :=
  match c.verdict l with
  | .incomplete => .wait
  | .frame n m => .take n (m.toList ++ ms)
  | .error code => .stop ms code

theorem next_incomplete (h : c.verdict l = .incomplete) : c.next ms l = .wait := by
  rw [next, h]

theorem next_frame {m : Option M} (h : c.verdict l = .frame n m) : c.next ms l = .take n (m.toList ++ ms) := by
  rw [next, h]

theorem next_error (h : c.verdict l = .error code) : c.next ms l = .stop ms code := by
  rw [next, h]

def reader (c : ProtobufCodec M) : Reader UInt8 (List M) ErrorCode where
  next := c.next
  take_bounds {_ _ l _} h := by
    cases hv : c.verdict l with
    | incomplete => simp [next_incomplete hv] at h
    | frame n m =>
      rw [next_frame hv] at h
      cases h
      exact frame_bounds hv
    | error code => simp [next_error hv] at h
  next_append {_ l} more h := by
    have hv : c.verdict l ≠ .incomplete := fun hv => h (next_incomplete hv)
    rw [next, next, verdict_append hv]
  stop_again {_ _ l _} h := by
    cases hv : c.verdict l with
    | incomplete => simp [next_incomplete hv] at h
    | frame n m => simp [next_frame hv] at h
    | error code =>
      rw [next_error hv] at h
      cases h
      exact next_error hv

theorem run_incomplete (h : c.verdict l = .incomplete) : c.reader.run ms l = ⟨ms, l, none⟩ :=
  Reader.run_wait (next_incomplete h)

theorem run_frame {m : Option M} (h : c.verdict l = .frame n m) :
    c.reader.run ms l = c.reader.run (m.toList ++ ms) (l.drop n) :=
  Reader.run_take (next_frame h)

theorem run_error (h : c.verdict l = .error code) : c.reader.run ms l = ⟨ms, l, some code⟩ :=
  Reader.run_stop (next_error h)

/-- Induction along the frames of a stream. -/
theorem induct {P : List M → Bytes → Prop} (incomplete : ∀ {ms l}, c.verdict l = .incomplete → P ms l)
    (frame : ∀ {ms l n m}, c.verdict l = .frame n m → P (m.toList ++ ms) (l.drop n) → P ms l)
    (error : ∀ {ms l code}, c.verdict l = .error code → P ms l) (ms : List M) (l : Bytes) : P ms l := by
  induction ms, l using c.reader.induct with
  | @wait ms l h =>
    cases hv : c.verdict l with
    | incomplete => exact incomplete hv
    | frame n m => cases (next_frame hv).symm.trans h
    | error code => exact error hv
  | @take ms l k t h ih =>
    cases hv : c.verdict l with
    | incomplete => exact incomplete hv
    | frame n m =>
      cases (next_frame hv).symm.trans h
      exact frame hv ih
    | error code => exact error hv
  | @stop ms l t code h =>
    cases hv : c.verdict l with
    | incomplete => exact incomplete hv
    | frame n m => cases (next_frame hv).symm.trans h
    | error code => exact error hv

/-! ## The loop is the reader -/

/-- One turn of the loop looks at the readable bytes only. -/
theorem onMessage_verdict (s : CodecState M) :
    c.onMessage s =
      match c.verdict s.buf.readableSpan with
      | .incomplete => s
      | .frame n m => c.onMessage ⟨s.buf.retrieve n, m.toList.map .message ++ s.events⟩
      | .error code => ⟨s.buf, .error code :: s.events⟩ := by
  rw [onMessage, verdict, Buffer.length_readableSpan]
  by_cases hmin : c.kMinMessageLen + kHeaderLen ≤ s.buf.readableBytes
  · have hhead : s.buf.peekInt32 = asInt32 s.buf.readableSpan :=
      Buffer.peekInt32_eq (by simp only [kHeaderLen] at hmin; omega)
    simp only [if_pos hmin, hhead]
    by_cases hvalid : (kMaxMessageLen : Int) < (asInt32 s.buf.readableSpan).toInt ∨
        (asInt32 s.buf.readableSpan).toInt < c.kMinMessageLen
    · rw [if_pos hvalid, if_pos hvalid]
    · rw [if_neg hvalid, if_neg hvalid]
      by_cases hfull : s.buf.readableBytes < kHeaderLen + (asInt32 s.buf.readableSpan).toInt.toNat
      · rw [if_pos hfull, if_pos hfull]
      · have hlen := Nat.le_of_not_lt hfull
        have hframe : s.buf.subspan 0 (kHeaderLen + (asInt32 s.buf.readableSpan).toInt.toNat) =
            s.buf.readableSpan.take (kHeaderLen + (asInt32 s.buf.readableSpan).toInt.toNat) := by
          rw [Buffer.subspan_eq 0 (by omega), Nat.zero_add]
          rfl
        rw [if_neg hfull, if_neg hfull, hframe, Buffer.subspan_eq kHeaderLen hlen]
        split
        · rfl
        · cases c.parse (slice s.buf.readableSpan kHeaderLen
              (kHeaderLen + (asInt32 s.buf.readableSpan).toInt.toNat)) with
          | ok m => rfl
          | error code => rfl
  · rw [if_neg hmin, if_neg hmin]

/-- A call of `onMessage` is a run of the reader, with an error as its last callback. -/
theorem onMessage_run (c : ProtobufCodec M) (s : CodecState M) (ms : List M) {es : List (CodecEvent M)}
    (hs : s.events = ms.map .message ++ es) :
    (c.onMessage s).buf.readableSpan = (c.reader.run ms s.buf.readableSpan).rest ∧
      (c.onMessage s).events = (c.reader.run ms s.buf.readableSpan).result.toList.map .error ++
        ((c.reader.run ms s.buf.readableSpan).state.map .message ++ es) := by
  generalize hl : s.buf.readableSpan = l
  have hturn := onMessage_verdict (c := c) s
  rw [hl] at hturn
  induction ms, l using c.induct generalizing s with
  | incomplete h =>
    rw [hturn, h, run_incomplete h]
    exact ⟨hl, hs⟩
  | error h =>
    rw [hturn, h, run_error h]
    exact ⟨hl, congrArg _ hs⟩
  | @frame ms l n m h ih =>
    have hspan : (s.buf.retrieve n).readableSpan = l.drop n := by rw [Buffer.readableSpan_retrieve, hl]
    rw [hturn, h, run_frame h]
    refine ih _ ?_ hspan (by rw [← hspan]; exact onMessage_verdict _)
    rw [hs, List.map_append, List.append_assoc]

/-! ## Streams in chunks -/

/-- The buffer and the callbacks are those of a reading; every call after an error repeats it. -/
structure Follows (c : ProtobufCodec M) (q : Reading UInt8 (List M) ErrorCode) (s : CodecState M) : Prop where
  rest : s.buf.readableSpan = q.rest
  settled : c.reader.Settled q
  events :
    match q.result with
    | none => s.events = q.state.map .message
    | some code => ∃ n, s.events = List.replicate (n + 1) (.error code) ++ q.state.map .message

theorem follows_start (c : ProtobufCodec M) (size : Nat) :
    c.Follows (c.reader.run [] []) ⟨.new size, []⟩ := by
  have h : c.verdict [] = .incomplete := by simp [verdict, kHeaderLen]
  have hsettled := Reader.settled_run (d := c.reader) [] []
  rw [run_incomplete h] at hsettled ⊢
  exact ⟨Buffer.readableSpan_new, hsettled, rfl⟩

theorem Follows.receive {q : Reading UInt8 (List M) ErrorCode} (h : c.Follows q s) (chunk : Bytes) :
    c.Follows (c.reader.resume q chunk) (c.receive s chunk) := by
  obtain ⟨hrest, hsettled, hevents⟩ := h
  have hspan : (s.buf.append chunk).readableSpan = q.rest ++ chunk := by rw [Buffer.readableSpan_append, hrest]
  cases hresult : q.result with
  | none =>
    rw [hresult] at hevents
    have hrun := c.onMessage_run ⟨s.buf.append chunk, s.events⟩ q.state (hevents.trans (List.append_nil _).symm)
    rw [hspan, List.append_nil] at hrun
    refine ⟨hrun.1, Reader.settled_run _ _, ?_⟩
    have hlast := hrun.2
    cases hnew : (c.reader.resume q chunk).result with
    | none =>
      have hnew' : (c.reader.run q.state (q.rest ++ chunk)).result = none := hnew
      rw [hnew'] at hlast
      exact hlast
    | some code =>
      have hnew' : (c.reader.run q.state (q.rest ++ chunk)).result = some code := hnew
      rw [hnew'] at hlast
      exact ⟨0, hlast⟩
  | some code =>
    have hready := hsettled.stop hresult
    rw [hresult] at hevents
    obtain ⟨n, hevents⟩ := hevents
    rw [Reader.resume_of_stop hready]
    have hverdict : c.verdict (q.rest ++ chunk) = .error code := by
      have hstop : c.next q.state (q.rest ++ chunk) = .stop q.state code := Reader.stop_append (d := c.reader) hready chunk
      cases hv : c.verdict (q.rest ++ chunk) with
      | incomplete => cases (next_incomplete hv).symm.trans hstop
      | frame n m => cases (next_frame hv).symm.trans hstop
      | error code' =>
        cases (next_error hv).symm.trans hstop
        rfl
    have hturn := onMessage_verdict (c := c) ⟨s.buf.append chunk, s.events⟩
    simp only [hspan, hverdict] at hturn
    rw [ProtobufCodec.receive, hturn]
    exact ⟨hspan, next_error hverdict, n + 1, by simp only [hevents, List.replicate_succ, List.cons_append]⟩

/-- After any chunks, the reader has come to where it comes with the whole stream. -/
theorem follows_chunks (c : ProtobufCodec M) (size : Nat) (chunks : List Bytes) :
    c.Follows (c.reader.run [] chunks.flatten) (chunks.foldl c.receive ⟨.new size, []⟩) := by
  have hfeed := c.reader.feed_eq [] [] chunks
  rw [List.nil_append] at hfeed
  rw [← hfeed]
  generalize hs : (⟨.new size, []⟩ : CodecState M) = s
  have hstart : c.Follows (c.reader.run [] []) s := hs ▸ c.follows_start size
  clear hs hfeed
  generalize c.reader.run [] [] = q at hstart
  induction chunks generalizing q s with
  | nil => exact hstart
  | cons chunk chunks ih => exact ih _ _ (hstart.receive chunk)

/-! ## The reference -/

/-- The frames of a stream from the left, each with its length in front, up to one that has not arrived in full or
whose length is not allowed. -/
def splitFrames (c : ProtobufCodec M) (l : Bytes) : List Bytes × Option ErrorCode :=
  if c.kMinMessageLen + kHeaderLen ≤ l.length then
    let len := (asInt32 l).toInt
    if (kMaxMessageLen : Int) < len ∨ len < c.kMinMessageLen then ([], some .kInvalidLength)
    else if l.length < kHeaderLen + len.toNat then ([], none)
    else
      let rest := splitFrames c (l.drop (kHeaderLen + len.toNat))
      (l.take (kHeaderLen + len.toNat) :: rest.1, rest.2)
  else ([], none)
termination_by l.length
decreasing_by (simp only [List.length_drop, kHeaderLen] at *; omega)

/-- The messages of the frames up to the first that is in error. -/
def decodeFrames (c : ProtobufCodec M) : List Bytes → Option ErrorCode → List M × Option ErrorCode
  | [], last => ([], last)
  | frame :: frames, last =>
    match c.parse (frame.drop kHeaderLen) with
    | .ok m => (m :: (decodeFrames c frames last).1, (decodeFrames c frames last).2)
    | .error code => ([], some code)

/-- The messages of a stream before the first error, and the error. -/
def reference (c : ProtobufCodec M) (l : Bytes) : List M × Option ErrorCode :=
  c.decodeFrames (c.splitFrames l).1 (c.splitFrames l).2

/-- How many bytes the frames of the messages take. -/
def consumed (c : ProtobufCodec M) (l : Bytes) : Nat :=
  ((c.splitFrames l).1.take (c.reference l).1.length).flatten.length

theorem splitFrames_incomplete (h : c.verdict l = .incomplete) : c.splitFrames l = ([], none) := by
  unfold verdict at h
  rw [splitFrames]
  split
  · rename_i hmin
    simp only [if_pos hmin] at h ⊢
    split at h
    · cases h
    · rename_i hvalid
      split at h
      · rename_i hfull
        rw [if_neg hvalid, if_pos hfull]
      · split at h
        · cases h
        · split at h <;> cases h
  · rfl

/-- A frame is split off and parsed whether or not its message is good. -/
theorem splitFrames_cons (hraw : c.rawCb = none) {m : M} (h : c.verdict l = .frame n (some m)) :
    c.splitFrames l = (l.take n :: (c.splitFrames (l.drop n)).1, (c.splitFrames (l.drop n)).2) ∧
      c.parse ((l.take n).drop kHeaderLen) = .ok m := by
  unfold verdict at h
  rw [splitFrames]
  split
  · rename_i hmin
    simp only [if_pos hmin] at h ⊢
    split at h
    · cases h
    · rename_i hvalid
      split at h
      · cases h
      · rename_i hfull
        rw [if_neg hvalid, if_neg hfull]
        rw [if_neg (by simp [drops, hraw])] at h
        split at h
        · rename_i m' hparse
          cases h
          refine ⟨rfl, ?_⟩
          rw [← hparse, slice, List.drop_take]
        · cases h
  · rename_i hmin
    rw [if_neg hmin] at h
    cases h

theorem reference_error (hraw : c.rawCb = none) (h : c.verdict l = .error code) :
    c.reference l = ([], some code) := by
  unfold verdict at h
  rw [reference, splitFrames]
  split
  · rename_i hmin
    simp only [if_pos hmin] at h ⊢
    split at h
    · rename_i hvalid
      cases h
      rw [if_pos hvalid]
      rfl
    · rename_i hvalid
      split at h
      · cases h
      · rename_i hfull
        rw [if_neg hvalid, if_neg hfull]
        rw [if_neg (by simp [drops, hraw])] at h
        split at h
        · cases h
        · rename_i code' hparse
          cases h
          rw [slice, ← List.drop_take] at hparse
          simp only [decodeFrames, hparse]
  · rename_i hmin
    rw [if_neg hmin] at h
    cases h

theorem not_frame_none (hraw : c.rawCb = none) : c.verdict l ≠ .frame n none := by
  intro h
  unfold verdict at h
  split at h
  · simp only at h
    split at h
    · cases h
    · split at h
      · cases h
      · rw [if_neg (by simp [drops, hraw])] at h
        split at h <;> cases h
  · cases h

/-- The reader delivers what the reference does, and comes to the end of its frames. -/
theorem run_eq_reference (hraw : c.rawCb = none) (ms : List M) (l : Bytes) :
    c.reader.run ms l = ⟨(c.reference l).1.reverse ++ ms, l.drop (c.consumed l), (c.reference l).2⟩ := by
  induction ms, l using c.induct with
  | incomplete h => simp [run_incomplete h, reference, consumed, splitFrames_incomplete h, decodeFrames]
  | error h => simp [run_error h, consumed, reference_error hraw h]
  | @frame ms l n m h ih =>
    cases m with
    | none => exact absurd h (not_frame_none hraw)
    | some m =>
      obtain ⟨hsplit, hparse⟩ := splitFrames_cons hraw h
      have href : c.reference l = (m :: (c.reference (l.drop n)).1, (c.reference (l.drop n)).2) := by
        simp only [reference, hsplit, decodeFrames, hparse]
      have hconsumed : c.consumed l = n + c.consumed (l.drop n) := by
        simp only [consumed, href, hsplit, List.length_cons, List.take_succ_cons, List.flatten_cons, List.length_append]
        rw [List.length_take_of_le (frame_bounds h).2]
      rw [run_frame h, ih, href, hconsumed, List.drop_drop]
      simp

/-- The messages before the first error, and the error, of callbacks in the order they were made. -/
def beforeError : List (CodecEvent M) → List M × Option ErrorCode
  | [] => ([], none)
  | .message m :: es => (m :: (beforeError es).1, (beforeError es).2)
  | .error code :: _ => ([], some code)

theorem beforeError_messages (ms : List M) (es : List (CodecEvent M)) :
    beforeError (ms.map .message ++ es) = (ms ++ (beforeError es).1, (beforeError es).2) := by
  induction ms with
  | nil => rfl
  | cons m ms ih => simp only [List.map_cons, List.cons_append, beforeError, ih]

theorem Follows.beforeError {q : Reading UInt8 (List M) ErrorCode} (h : c.Follows q s) :
    beforeError s.events.reverse = (q.state.reverse, q.result) := by
  have hevents := h.events
  cases hresult : q.result with
  | none =>
    rw [hresult] at hevents
    have := beforeError_messages q.state.reverse []
    rw [hevents, ← List.map_reverse]
    simpa [ProtobufCodec.beforeError] using this
  | some code =>
    rw [hresult] at hevents
    obtain ⟨n, hevents⟩ := hevents
    rw [hevents, List.reverse_append, ← List.map_reverse, List.reverse_replicate, beforeError_messages]
    simp [List.replicate_succ, ProtobufCodec.beforeError]

/-- However a stream is cut into chunks, the messages before the first error and the error are those of the
reference, and the buffer is left at the end of the frames of these messages. A call of `onMessage` depends on the
readable bytes only. -/
theorem decodes_reference (hraw : c.rawCb = none) (size : Nat) (chunks : List Bytes) :
    beforeError (chunks.foldl c.receive ⟨.new size, []⟩).events.reverse = c.reference chunks.flatten ∧
      (chunks.foldl c.receive ⟨.new size, []⟩).buf.readableSpan =
        chunks.flatten.drop (c.consumed chunks.flatten) ∧
      ∀ (buf buf' : Buffer) (es : List (CodecEvent M)), buf.readableSpan = buf'.readableSpan →
        (c.onMessage ⟨buf, es⟩).events = (c.onMessage ⟨buf', es⟩).events ∧
          (c.onMessage ⟨buf, es⟩).buf.readableSpan = (c.onMessage ⟨buf', es⟩).buf.readableSpan := by
  have hfollows := c.follows_chunks size chunks
  rw [run_eq_reference hraw] at hfollows
  refine ⟨?_, hfollows.rest, ?_⟩
  · rw [hfollows.beforeError]
    simp
  · intro buf buf' es hsame
    obtain ⟨hrest, hevents⟩ := c.onMessage_run ⟨buf, es⟩ [] rfl
    obtain ⟨hrest', hevents'⟩ := c.onMessage_run ⟨buf', es⟩ [] rfl
    rw [hsame] at hrest hevents
    exact ⟨hevents.trans hevents'.symm, hrest.trans hrest'.symm⟩

/-- A stand-in for protobuf in concrete runs: messages of zeros, with the tag of the RPC codec. -/
def zeros : ProtobufCodec (Fin (2 ^ 27)) where
  tag := [0x52, 0x50, 0x43, 0x30]
  serialize n := List.replicate n 0
  parseFromArray bytes := if h : bytes.length < 2 ^ 27 then some ⟨bytes.length, h⟩ else none
  tag_fits := by decide
  size_fits n := by
    rw [List.length_replicate]
    simp only [kChecksumLen]
    omega

/-- An empty message, then a length that is too small, in two pieces. -/
def badLength : List Bytes :=
  [[0, 0, 0, 8, 0x52, 0x50], [0x43, 0x30, 2, 0xf2, 1, 0x16, 0, 0, 0, 7, 0, 0, 0, 0, 0, 0, 0, 0]]

theorem decodes_reference_badLength :
    beforeError (badLength.foldl zeros.receive ⟨.new 4, []⟩).events.reverse = ([0], some .kInvalidLength) ∧
      (badLength.foldl zeros.receive ⟨.new 4, []⟩).buf.readableSpan = [0, 0, 0, 7, 0, 0, 0, 0, 0, 0, 0, 0] := by
  obtain ⟨hevents, hrest, _⟩ := decodes_reference (c := zeros) rfl 4 badLength
  have hrun := run_eq_reference (c := zeros) rfl [] badLength.flatten
  have heval : zeros.reader.run [] badLength.flatten =
      ⟨[0], [0, 0, 0, 7, 0, 0, 0, 0, 0, 0, 0, 0], some .kInvalidLength⟩ := rfl
  rw [heval, List.append_nil, Reading.mk.injEq] at hrun
  obtain ⟨hmessages, hleft, herror⟩ := hrun
  rw [hevents, hrest]
  refine ⟨Prod.ext ?_ herror.symm, hleft.symm⟩
  exact List.reverse_eq_iff.mp hmessages.symm

end Muduo.ProtobufCodec
