import Muduo.HttpContext
import Muduo.Lib.Incremental

/-! # HTTP parsing does not depend on segmentation

On the readable bytes `parseRequest` is an incremental reader. A request line that is refused stays in the buffer
and is looked at again by the next call, with the same result. The receive time is the time of a call, so the
reader does without it. -/

namespace Muduo
open Lib

def HttpRequest.untimed (r : HttpRequest) : HttpRequest := { r with receiveTime := 0 }

namespace HttpContext
variable {line rest version l : Bytes} {r : HttpRequest} {c : HttpContext} {buf : Buffer} {t : Timestamp}

/-- A context without the time at which its request was received. -/
def untimed (c : HttpContext) : HttpContext := { c with request := c.request.untimed }

@[simp] theorem untimed_state : c.untimed.state = c.state := rfl

/-! ## The ways of a request line -/

theorem processRequestLine_none (hspace : search (ascii " ") line = none) : processRequestLine line r = (false, r) := by
  simp only [processRequestLine, hspace]

theorem processRequestLine_invalid {methodEnd : Nat} (hspace : search (ascii " ") line = some methodEnd)
    (hm : HttpRequest.methodOf (line.take methodEnd) = .kInvalid) :
    processRequestLine line r = (false, r.setMethod (line.take methodEnd)) := by
  simp only [processRequestLine, hspace]
  exact if_pos hm

theorem processRequestLine_valid {methodEnd : Nat} (hspace : search (ascii " ") line = some methodEnd)
    (hm : HttpRequest.methodOf (line.take methodEnd) ≠ .kInvalid) :
    processRequestLine line r =
      processUri (line.drop (methodEnd + 1)) (r.setMethod (line.take methodEnd)) := by
  simp only [processRequestLine, hspace]
  exact if_neg hm

/-! ## A request line is processed the same way again -/

theorem setUri_setUri (uri : Bytes) : (r.setUri uri).setUri uri = r.setUri uri := by
  unfold HttpRequest.setUri
  split <;> rfl

theorem setVersion_setUri (uri : Bytes) :
    setVersion version ((setVersion version r).2.setUri uri) = setVersion version (r.setUri uri) := by
  unfold setVersion HttpRequest.setUri
  split <;> split <;> first | rfl | (split <;> rfl)

theorem processUri_processUri : processUri rest (processUri rest r).2 = processUri rest r := by
  unfold processUri
  split
  · rfl
  · rw [setVersion_setUri, setUri_setUri]

theorem processUri_method : (processUri rest r).2.method = r.method := by
  unfold processUri setVersion HttpRequest.setUri
  split
  · rfl
  · split <;> split <;> first | rfl | (split <;> rfl)

theorem setMethod_of_method {m : Bytes} (h : r.method = HttpRequest.methodOf m) : r.setMethod m = r := by
  rw [HttpRequest.setMethod, ← h]

theorem processRequestLine_again :
    processRequestLine line (processRequestLine line r).2 = processRequestLine line r := by
  cases hspace : search (ascii " ") line with
  | none => rw [processRequestLine_none hspace, processRequestLine_none hspace]
  | some methodEnd =>
    by_cases hm : HttpRequest.methodOf (line.take methodEnd) = .kInvalid
    · rw [processRequestLine_invalid hspace hm, processRequestLine_invalid hspace hm, setMethod_of_method rfl]
    · rw [processRequestLine_valid hspace hm, processRequestLine_valid hspace hm,
        setMethod_of_method processUri_method, processUri_processUri]

/-! ## The receive time -/

theorem setUri_untimed (uri : Bytes) : r.untimed.setUri uri = (r.setUri uri).untimed := by
  unfold HttpRequest.setUri
  split <;> rfl

theorem setVersion_untimed :
    setVersion version r.untimed = ((setVersion version r).1, (setVersion version r).2.untimed) := by
  unfold setVersion
  split
  · rfl
  · split <;> rfl

theorem processUri_untimed :
    processUri rest r.untimed = ((processUri rest r).1, (processUri rest r).2.untimed) := by
  unfold processUri
  split
  · rfl
  · rw [setUri_untimed, setVersion_untimed]

theorem processRequestLine_untimed (line : Bytes) (r : HttpRequest) :
    processRequestLine line r.untimed = ((processRequestLine line r).1, (processRequestLine line r).2.untimed) := by
  cases hspace : search (ascii " ") line with
  | none => rw [processRequestLine_none hspace, processRequestLine_none hspace]
  | some methodEnd =>
    by_cases hm : HttpRequest.methodOf (line.take methodEnd) = .kInvalid
    · rw [processRequestLine_invalid hspace hm, processRequestLine_invalid hspace hm]
      rfl
    · rw [processRequestLine_valid hspace hm, processRequestLine_valid hspace hm]
      exact processUri_untimed (r := r.setMethod (line.take methodEnd))

theorem processHeader_untimed : processHeader line c.untimed = (processHeader line c).untimed := by
  unfold processHeader
  split <;> rfl

/-! ## The reader -/

/-- One turn of the loop of `parseRequest`. -/
def next (c : HttpContext) (l : Bytes) : Outcome HttpContext Unit :=
  match c.state with
  | .kExpectRequestLine =>
    match search kCRLF l with
    | none => .wait
    | some crlf =>
      let (ok, request) := processRequestLine (l.take crlf) c.request
      if ok then .take (crlf + 2) ⟨.kExpectHeaders, request⟩ else .stop { c with request := request } ()
  | .kExpectHeaders =>
    match search kCRLF l with
    | none => .wait
    | some crlf => .take (crlf + 2) (processHeader (l.take crlf) c)
  | .kExpectBody => .wait
  | .kGotAll => .wait

theorem next_append (h : c.next l ≠ .wait) (more : Bytes) : c.next (l ++ more) = c.next l := by
  -- The state decides only what is done with the line; the line is found in the same place.
  have hline : ∀ {crlf}, search kCRLF l = some crlf →
      search kCRLF (l ++ more) = some crlf ∧ (l ++ more).take crlf = l.take crlf := by
    intro crlf hcrlf
    have := search_bound hcrlf
    exact ⟨search_append hcrlf more, List.take_append_of_le_length (by omega)⟩
  unfold next at h ⊢
  split at h
  · cases hcrlf : search kCRLF l with
    | none => simp [hcrlf] at h
    | some crlf =>
      obtain ⟨hsame, htake⟩ := hline hcrlf
      simp only [hsame, htake]
  · cases hcrlf : search kCRLF l with
    | none => simp [hcrlf] at h
    | some crlf =>
      obtain ⟨hsame, htake⟩ := hline hcrlf
      simp only [hsame, htake]
  · exact absurd rfl h
  · exact absurd rfl h

theorem next_take {n : Nat} {c' : HttpContext} (h : c.next l = .take n c') : 0 < n ∧ n ≤ l.length := by
  have hbound : ∀ {crlf}, search kCRLF l = some crlf → 0 < crlf + 2 ∧ crlf + 2 ≤ l.length :=
    fun hcrlf => ⟨Nat.succ_pos _, search_bound hcrlf⟩
  unfold next at h
  split at h
  · split at h
    · cases h
    · rename_i crlf hcrlf
      simp only at h
      split at h
      · cases h
        exact hbound hcrlf
      · cases h
  · split at h
    · cases h
    · rename_i crlf hcrlf
      cases h
      exact hbound hcrlf
  · cases h
  · cases h

theorem next_stop {c' : HttpContext} (h : c.next l = .stop c' ()) : c'.next l = .stop c' () := by
  unfold next at h
  split at h
  · rename_i hstate
    split at h
    · cases h
    · rename_i crlf hcrlf
      simp only at h
      split at h
      · cases h
      · rename_i hbad
        cases h
        simp only [next, hstate, hcrlf, processRequestLine_again, if_neg hbad]
  · split at h <;> cases h
  · cases h
  · cases h

def reader : Reader UInt8 HttpContext Unit where
  next := next
  take_bounds := next_take
  next_append more h := next_append h more
  stop_again h := next_stop h

/-! ## The loop is the reader -/

/-- One turn of the loop looks at the readable bytes only, and the receive time does not matter. -/
theorem parseRequest_next (c : HttpContext) (buf : Buffer) (t : Timestamp) :
    match c.untimed.next buf.readableSpan with
    | .wait => c.parseRequest buf t = ⟨true, c, buf⟩
    | .take n s => ∃ c' : HttpContext, c'.untimed = s ∧ c.parseRequest buf t = c'.parseRequest (buf.retrieve n) t
    | .stop s () => ∃ c' : HttpContext, c'.untimed = s ∧ c.parseRequest buf t = ⟨false, c', buf⟩ := by
  rw [next, parseRequest]
  cases hstate : c.state with
  | kExpectRequestLine =>
    simp only [untimed_state, hstate]
    cases hcrlf : search kCRLF buf.readableSpan with
    | none => rfl
    | some crlf =>
      have hline := processRequestLine_untimed (buf.readableSpan.take crlf) c.request
      have hrequest : c.untimed.request = c.request.untimed := rfl
      simp only [hrequest, hline]
      by_cases hok : (processRequestLine (buf.readableSpan.take crlf) c.request).1 = true
      · simp only [if_pos hok]
        exact ⟨_, rfl, rfl⟩
      · simp only [if_neg hok]
        exact ⟨_, rfl, rfl⟩
  | kExpectHeaders =>
    simp only [untimed_state, hstate]
    cases hcrlf : search kCRLF buf.readableSpan with
    | none => rfl
    | some crlf => exact ⟨_, processHeader_untimed.symm, rfl⟩
  | kExpectBody => simp [hstate]
  | kGotAll => simp [hstate]

/-- A call of `parseRequest` is a run of the reader. -/
theorem parseRequest_run (c : HttpContext) (buf : Buffer) (t : Timestamp) :
    (c.parseRequest buf t).ok = (reader.run c.untimed buf.readableSpan).result.isNone ∧
      (c.parseRequest buf t).context.untimed = (reader.run c.untimed buf.readableSpan).state ∧
      (c.parseRequest buf t).buf.readableSpan = (reader.run c.untimed buf.readableSpan).rest := by
  generalize hs : c.untimed = s
  generalize hl : buf.readableSpan = l
  have hturn := parseRequest_next c buf t
  rw [hs, hl] at hturn
  induction s, l using reader.induct generalizing c buf with
  | @wait s l h =>
    rw [show s.next l = .wait from h] at hturn
    rw [Reader.run_wait h, hturn]
    exact ⟨rfl, hs, hl⟩
  | @stop s l s' r h =>
    rw [show s.next l = .stop s' r from h] at hturn
    obtain ⟨c', hc', heq⟩ := hturn
    rw [Reader.run_stop h, heq]
    exact ⟨rfl, hc', hl⟩
  | @take s l n s' h ih =>
    rw [show s.next l = .take n s' from h] at hturn
    obtain ⟨c', hc', heq⟩ := hturn
    have hspan : (buf.retrieve n).readableSpan = l.drop n := by rw [Buffer.readableSpan_retrieve, hl]
    have hturn' := parseRequest_next c' (buf.retrieve n) t
    rw [hc', hspan] at hturn'
    rw [Reader.run_take h, heq]
    exact ih c' _ hc' hspan hturn'

/-! ## Segments -/

/-- A chunk is appended, and `parseRequest` is called at its time. -/
def receive (p : HttpParse) (chunk : Bytes × Timestamp) : HttpParse :=
  p.context.parseRequest (p.buf.append chunk.1) chunk.2

/-- The outcome of the last call is that of a reading. -/
structure Follows (q : Reading UInt8 HttpContext Unit) (p : HttpParse) : Prop where
  ok : p.ok = q.result.isNone
  context : p.context.untimed = q.state
  rest : p.buf.readableSpan = q.rest

theorem follows_parseRequest (c : HttpContext) (buf : Buffer) (t : Timestamp) :
    Follows (reader.run c.untimed buf.readableSpan) (c.parseRequest buf t) := by
  obtain ⟨hok, hcontext, hrest⟩ := parseRequest_run c buf t
  exact ⟨hok, hcontext, hrest⟩

theorem Follows.receive {q : Reading UInt8 HttpContext Unit} {p : HttpParse} (h : Follows q p)
    (chunk : Bytes × Timestamp) : Follows (reader.resume q chunk.1) (HttpContext.receive p chunk) := by
  have hrun := follows_parseRequest p.context (p.buf.append chunk.1) chunk.2
  rwa [h.context, Buffer.readableSpan_append, h.rest] at hrun

theorem Follows.receive_all {q : Reading UInt8 HttpContext Unit} {p : HttpParse} (h : Follows q p)
    (chunks : List (Bytes × Timestamp)) :
    Follows ((chunks.map Prod.fst).foldl reader.resume q) (chunks.foldl HttpContext.receive p) := by
  induction chunks generalizing p q with
  | nil => exact h
  | cons chunk chunks ih => exact ih (h.receive chunk)

/-- However a string is cut into chunks, the last call of `parseRequest` returns what a single call on the whole
string returns, and leaves the same context, but for the receive time, and the same unread bytes. -/
theorem segments_parse_alike (p : HttpParse) (first : Bytes × Timestamp) (chunks : List (Bytes × Timestamp))
    (receiveTime : Timestamp) :
    let pieces := (first :: chunks).foldl receive p
    let whole := p.context.parseRequest (p.buf.append ((first :: chunks).map Prod.fst).flatten) receiveTime
    pieces.ok = whole.ok ∧ pieces.context.untimed = whole.context.untimed ∧
      pieces.buf.readableSpan = whole.buf.readableSpan := by
  have hfirst := follows_parseRequest p.context (p.buf.append first.1) first.2
  have hpieces := hfirst.receive_all chunks
  have hwhole := follows_parseRequest p.context (p.buf.append ((first :: chunks).map Prod.fst).flatten) receiveTime
  rw [Reader.feed_eq, Buffer.readableSpan_append] at hpieces
  rw [Buffer.readableSpan_append, List.map_cons, List.flatten_cons, ← List.append_assoc] at hwhole
  exact ⟨hpieces.ok.trans hwhole.ok.symm, hpieces.context.trans hwhole.context.symm,
    hpieces.rest.trans hwhole.rest.symm⟩

end HttpContext
end Muduo
