import Muduo.Lib.Simulation
import Muduo.Theorems.HttpResponses
import Muduo.Theorems.HttpServing
import Muduo.Theorems.OutputStream

/-! # Responses on the wire

Chunks arrive on a connection while the socket takes what the server has sent, a part at a time. The bytes that go
out are the replies up to the first that closes the connection, whole and in the order of the requests; the write
side is shut down behind the last of them, and the writes have no influence on what is served. -/

namespace Muduo
open Lib

/-! ## The replies -/

/-- What the server sends for an event, unless it has closed before. -/
def HttpEvent.reply : HttpEvent → Bytes
  | .callback _ response => (response.appendToBuffer (.new Buffer.kInitialSize)).readableSpan
  | .badRequest => ascii "HTTP/1.1 400 Bad Request\r\n\r\n"

namespace HttpSite
variable {e : HttpEvent} {es : List HttpEvent}

/-- The replies up to the first that closes; the oldest event is the first. -/
def replies : List HttpEvent → Bytes
  | [] => []
  | e :: es => e.reply ++ if closes e then [] else replies es

theorem replies_concat (es : List HttpEvent) (e : HttpEvent) :
    replies (es ++ [e]) = replies es ++ if es.any closes then [] else e.reply := by
  induction es with
  | nil => simp [replies]
  | cons e' es ih =>
    rw [List.cons_append, replies, replies, ih]
    cases hcloses : closes e' <;> simp [hcloses]

/-- Replies that all keep the connection are read back one by one. -/
theorem readAll_replies {served : List (HttpRequest × HttpResponse)} (h : ∀ x ∈ served, x.2.Plain) :
    ReadResponse.readAll (replies (served.map fun x => .callback x.1 x.2)) = some (served.map (·.2.read)) := by
  induction served with
  | nil =>
    rw [List.map_nil, replies, ReadResponse.readAll, if_pos rfl]
    rfl
  | cons x served ih =>
    have hplain := h x List.mem_cons_self
    have hopen : closes (.callback x.1 x.2) = false := hplain.keepsAlive
    have hfirst := hplain.readResponse (.new Buffer.kInitialSize) (replies (served.map fun x => .callback x.1 x.2))
      Buffer.readableSpan_new
    rw [List.map_cons, replies, hopen, HttpEvent.reply, if_neg Bool.false_ne_true, ReadResponse.readAll_cons hfirst,
      ih fun y hy => h y (List.mem_cons_of_mem _ hy)]
    rfl

end HttpSite

/-! ## The output of the connection -/

/-- The peer has not reset the connection: a write may be partial and may fail, but a message is not given up. -/
def WriteResult.Healthy (result : WriteResult) : Prop := result ≠ .error EPIPE ∧ result ≠ .error ECONNRESET

instance (result : WriteResult) : Decidable result.Healthy := inferInstanceAs (Decidable (_ ∧ _))

namespace Site
variable {s : Site} {message : Bytes} {result : WriteResult}

/-- The output of an established connection. The write side is shut down if and only if the connection is closing
and the kernel has accepted everything. -/
structure Sending (s : Site) : Prop extends Output s where
  up : s.conn.state = .kConnected ∨ s.conn.state = .kDisconnecting
  halfClosed : .shutdownWrite ∈ s.conn.log ↔ s.conn.state = .kDisconnecting ∧ s.conn.outputBuffer.readableSpan = []

theorem Sending.not_shut_of_open (h : Sending s) (hopen : s.conn.state = .kConnected) : .shutdownWrite ∉ s.conn.log := by
  intro hmem
  have hclosing := (h.halfClosed.mp hmem).1
  rw [hopen] at hclosing
  cases hclosing

theorem streamed_of_healthy (h : result.Healthy) (b : Bool) :
    (ConnEvent.sendInLoop message (if b then some result else none)).streamed = message := by
  cases b with
  | false => rfl
  | true =>
    cases result with
    | wrote n => rfl
    | error errno =>
      refine if_neg ?_
      rintro (rfl | rfl)
      · exact h.1 rfl
      · exact h.2 rfl

theorem Sending.send (h : Sending s) (message : Bytes) (hopen : s.conn.state = .kConnected)
    (hhealthy : result.Healthy) :
    Sending (s.send message result) ∧ (s.send message result).conn.state = .kConnected ∧
      stream (s.send message result).conn.log = stream s.conn.log ++ message := by
  have hup : s.conn.state ≠ .kDisconnected := by simp [hopen]
  have hstate := (sendInLoop_state s message result).trans hopen
  have hlog := sendInLoop_log s message result hup
  rw [Site.send, if_pos hopen]
  refine ⟨⟨h.toOutput.sendInLoop hup, .inl hstate, ?_⟩, hstate, ?_⟩
  · simp [hlog, hstate, h.not_shut_of_open hopen]
  · rw [hlog, stream_cons, streamed_of_healthy hhealthy]

/-- A message that is sent when the connection is closing is dropped. -/
theorem send_of_closing (h : s.conn.state = .kDisconnecting) : s.send message result = s := by
  rw [Site.send, if_neg (by simp [h])]

theorem Sending.shutdown (h : Sending s) (hopen : s.conn.state = .kConnected) :
    Sending s.shutdown ∧ s.shutdown.conn.state = .kDisconnecting ∧ stream s.shutdown.conn.log = stream s.conn.log := by
  have hnot := h.not_shut_of_open hopen
  rw [Site.shutdown, if_pos hopen, shutdownInLoop]
  split
  case isTrue hwriting =>
    have hne := h.writing.mp hwriting
    refine ⟨⟨⟨?_, h.writing⟩, .inr rfl, ?_⟩, rfl, ?_⟩
    · simpa [setState, record, ConnEvent.accepted, ConnEvent.streamed] using h.stream
    · simp [setState, record, hnot, hne]
    · simp [setState, record, ConnEvent.streamed]
  case isFalse hidle =>
    have hempty : s.conn.outputBuffer.readableSpan = [] := by
      by_contra hne
      exact hidle (h.writing.mpr hne)
    refine ⟨⟨⟨?_, h.writing⟩, .inr rfl, ?_⟩, rfl, ?_⟩
    · simpa [setState, record, ConnEvent.accepted, ConnEvent.streamed] using h.stream
    · simp [setState, record, hempty]
    · simp [setState, record, ConnEvent.streamed]

theorem shutdown_of_closing (h : s.conn.state = .kDisconnecting) : s.shutdown = s := by
  rw [Site.shutdown, if_neg (by simp [h])]

theorem Sending.halfClosed_handleWrite (h : Sending s) (result : WriteResult) :
    .shutdownWrite ∈ (s.handleWrite result).conn.log ↔
      s.conn.state = .kDisconnecting ∧ (s.handleWrite result).conn.outputBuffer.readableSpan = [] := by
  unfold Site.handleWrite
  split
  case isFalse => exact h.halfClosed
  case isTrue hwriting =>
    have hne := h.writing.mp hwriting
    have hnot : .shutdownWrite ∉ s.conn.log := fun hmem => hne (h.halfClosed.mp hmem).2
    have hrecord : .shutdownWrite ∉ (s.record (.handleWrite s.conn.outputBuffer.readableSpan result)).conn.log := by
      simp [hnot]
    unfold handleWritten
    split
    case h_1 => exact iff_of_false hrecord fun hclosed => hne hclosed.2
    case h_3 => exact iff_of_false hrecord fun hclosed => hne hclosed.2
    case h_2 n =>
      dsimp only
      split
      case isTrue hdrained =>
        -- The last bytes are accepted: a connection that is closing is shut down here.
        obtain ⟨hbuffer, -, hlog, -⟩ := drained_conn
          ((s.record (.handleWrite s.conn.outputBuffer.readableSpan (.wrote (n + 1)))).retrieveOutput (n + 1))
        rw [hbuffer, hlog, Buffer.readableBytes_eq_zero.mp hdrained]
        split
        case isTrue hclosing => exact iff_of_true List.mem_cons_self ⟨hclosing, rfl⟩
        case isFalse hopen => exact iff_of_false hrecord fun hclosed => hopen hclosed.1
      case isFalse hleft =>
        exact iff_of_false hrecord fun hclosed => hleft (Buffer.readableBytes_eq_zero.mpr hclosed.2)

theorem Sending.handleWrite (h : Sending s) (result : WriteResult) : Sending (s.handleWrite result) := by
  have hstate := (handleWrite_keeps s result).1
  refine ⟨h.toOutput.handleWrite, ?_, ?_⟩
  · rw [hstate]
    exact h.up
  · rw [hstate]
    exact h.halfClosed_handleWrite result

end Site

namespace HttpSite
variable {s t : HttpSite} {d : HttpDelivery} {e : HttpEvent} {result : WriteResult}

/-! ## One delivery -/

/-- The answer to an event, on the connection. -/
def answer (e : HttpEvent) (result : WriteResult) (site : Site) : Site :=
  if closes e then (site.send e.reply result).shutdown else site.send e.reply result

/-- A call takes some bytes from the input buffer, and answers an event or does nothing else. -/
theorem onMessage_cases (d : HttpDelivery) (s : HttpSite) :
    ∃ buf, (s.onMessage d).events = s.events ∧ (s.onMessage d).site = (s.setInputBuffer buf).site ∨
      ∃ e, (s.onMessage d).events = e :: s.events ∧ (s.onMessage d).site = answer e d.result (s.setInputBuffer buf).site := by
  unfold onMessage
  generalize (s.context.getD {}).parseRequest s.inputBuffer d.receiveTime = p
  refine ⟨p.buf, ?_⟩
  dsimp only
  split
  · exact .inr ⟨.badRequest, rfl, rfl⟩
  · split
    · refine .inr ⟨_, (onRequest_eq _ _ _ _).2, ?_⟩
      unfold onRequest answer closes
      dsimp only
      split <;> rfl
    · exact .inl ⟨rfl, rfl⟩

/-- The replies to the events so far are what the connection has sent. -/
structure Replying (s : HttpSite) : Prop where
  sending : s.site.Sending
  closing : s.site.conn.state = .kDisconnecting ↔ s.events.any closes = true
  stream : stream s.site.conn.log = replies s.events.reverse

theorem Replying.state (h : Replying s) (hopen : s.events.any closes = false) : s.site.conn.state = .kConnected := by
  rcases h.sending.up with hstate | hstate
  · exact hstate
  · rw [h.closing.mp hstate] at hopen
    cases hopen

theorem Replying.answer (h : Replying s) (hhealthy : result.Healthy) (hsite : t.site = answer e result s.site)
    (hevents : t.events = e :: s.events) : Replying t := by
  have hreplies : replies t.events.reverse =
      replies s.events.reverse ++ if s.events.any closes then [] else e.reply := by
    rw [hevents, List.reverse_cons, replies_concat, List.any_reverse]
  cases hopen : s.events.any closes with
  | true =>
    have hclosing := h.closing.mpr hopen
    have hsame : t.site = s.site := by
      rw [hsite, HttpSite.answer, Site.send_of_closing hclosing, Site.shutdown_of_closing hclosing, ite_self]
    refine ⟨by rw [hsame]; exact h.sending, ?_, ?_⟩
    · rw [hsame, hevents, List.any_cons, hopen, Bool.or_true]
      exact iff_of_true hclosing rfl
    · rw [hsame, hreplies, hopen, if_pos rfl, List.append_nil]
      exact h.stream
  | false =>
    obtain ⟨hsending, hstate, hstream⟩ := h.sending.send e.reply (h.state hopen) hhealthy
    rw [hopen, if_neg Bool.false_ne_true, ← h.stream] at hreplies
    rw [HttpSite.answer] at hsite
    cases hcloses : closes e with
    | true =>
      obtain ⟨hshut, hclosing, hsame⟩ := hsending.shutdown hstate
      rw [hcloses, if_pos rfl] at hsite
      refine ⟨by rw [hsite]; exact hshut, ?_, ?_⟩
      · rw [hsite, hevents, List.any_cons, hcloses, Bool.true_or]
        exact iff_of_true hclosing rfl
      · rw [hsite, hreplies, hsame, hstream]
    | false =>
      rw [hcloses, if_neg Bool.false_ne_true] at hsite
      refine ⟨by rw [hsite]; exact hsending, ?_, ?_⟩
      · rw [hsite, hevents, List.any_cons, hcloses, hopen, hstate]
        decide
      · rw [hsite, hreplies, hstream]

theorem Replying.congr (h : Replying s) (hsite : t.site = s.site) (hevents : t.events = s.events) : Replying t := by
  refine ⟨?_, ?_, ?_⟩
  · rw [hsite]
    exact h.sending
  · rw [hsite, hevents]
    exact h.closing
  · rw [hsite, hevents]
    exact h.stream

theorem Replying.setInputBuffer (h : Replying s) (buf : Buffer) : Replying (s.setInputBuffer buf) :=
  ⟨⟨⟨h.sending.stream, h.sending.writing⟩, h.sending.up, h.sending.halfClosed⟩, h.closing, h.stream⟩

theorem Replying.deliver (h : Replying s) (hhealthy : d.result.Healthy) : Replying (s.deliver d) := by
  have hread : Replying { s with site := s.site.readFd d.chunk } := h.setInputBuffer _
  obtain ⟨buf, ⟨hevents, hsite⟩ | ⟨e, hevents, hsite⟩⟩ := onMessage_cases d { s with site := s.site.readFd d.chunk }
  · exact (hread.setInputBuffer buf).congr hsite hevents
  · exact (hread.setInputBuffer buf).answer hhealthy hsite hevents

theorem Replying.handleWrite (h : Replying s) (result : WriteResult) :
    Replying { s with site := s.site.handleWrite result } := by
  refine ⟨h.sending.handleWrite result, ?_, ?_⟩
  · rw [(Site.handleWrite_keeps s.site result).1]
    exact h.closing
  · rw [(Site.handleWrite_keeps s.site result).2.1]
    exact h.stream

theorem isWriting_established (id fd : Nat) : (established id fd).site.conn.channel.isWriting = false := by
  have hevents : (established id fd).site.conn.channel.events = Channel.kNoneEvent ||| Channel.kReadEvent := rfl
  rw [Channel.isWriting, hevents]
  decide

theorem readable_established (id fd : Nat) : (established id fd).site.conn.outputBuffer.readableSpan = [] :=
  Buffer.readableSpan_new

theorem replying_established (id fd : Nat) : Replying (established id fd) where
  sending :=
    { stream := readable_established id fd
      writing := by
        rw [isWriting_established]
        exact iff_of_false Bool.false_ne_true (not_not_intro (readable_established id fd))
      up := .inl rfl
      halfClosed := by
        refine iff_of_false ?_ fun hclosed => nomatch hclosed.1
        change ConnEvent.shutdownWrite ∉ [ConnEvent.setState .kConnected]
        decide }
  closing := iff_of_false (fun hclosing => nomatch hclosing) Bool.false_ne_true
  stream := rfl

/-! ## The writes have no influence on what is served -/

/-- Two connections that differ in their output only. -/
structure SameInput (s t : HttpSite) : Prop where
  context : s.context = t.context
  inputBuffer : s.inputBuffer = t.inputBuffer
  events : s.events = t.events

@[simp] theorem inputBuffer_send (s : HttpSite) (message : Bytes) (result : WriteResult) :
    (s.send message result).inputBuffer = s.inputBuffer := (keptByOutput_inputBuffer _).send rfl

@[simp] theorem inputBuffer_shutdown (s : HttpSite) : s.shutdown.inputBuffer = s.inputBuffer := by
  unfold shutdown Site.shutdown
  split
  · exact (keptByOutput_inputBuffer _).shutdownInLoop rfl
  · rfl

theorem onRequest_input (s : HttpSite) (callback : HttpCallback) (result : WriteResult) (req : HttpRequest) :
    (s.onRequest callback result req).inputBuffer = s.inputBuffer := by
  simp only [onRequest]
  split
  · exact (inputBuffer_shutdown _).trans (inputBuffer_send _ _ _)
  · exact inputBuffer_send _ _ _

theorem SameInput.onMessage (h : SameInput s t) (d : HttpDelivery) (result : WriteResult) :
    SameInput (s.onMessage d) (t.onMessage { d with result }) := by
  unfold HttpSite.onMessage
  rw [← h.context, ← h.inputBuffer]
  dsimp only
  generalize (s.context.getD {}).parseRequest s.inputBuffer d.receiveTime = p
  split
  · refine ⟨rfl, ?_, congrArg (HttpEvent.badRequest :: ·) h.events⟩
    rw [inputBuffer_shutdown, inputBuffer_shutdown, inputBuffer_send, inputBuffer_send]
    rfl
  · split
    · refine ⟨rfl, ?_, ?_⟩
      · refine (onRequest_input _ d.httpCallback d.result p.context.request).trans ?_
        exact (onRequest_input { t.setInputBuffer p.buf with context := some p.context } d.httpCallback result
          p.context.request).symm
      · refine (onRequest_eq _ d.httpCallback d.result p.context.request).2.trans ?_
        refine Eq.trans ?_ (onRequest_eq { t.setInputBuffer p.buf with context := some p.context } d.httpCallback
          result p.context.request).2.symm
        exact congrArg (HttpEvent.callback _ _ :: ·) h.events
    · exact ⟨rfl, rfl, h.events⟩

theorem SameInput.deliver (h : SameInput s t) (d : HttpDelivery) (result : WriteResult) :
    SameInput (s.deliver d) (t.deliver { d with result }) := by
  have hread : SameInput { s with site := s.site.readFd d.chunk } { t with site := t.site.readFd d.chunk } :=
    ⟨h.context, congrArg (Buffer.readFd · d.chunk) h.inputBuffer, h.events⟩
  exact hread.onMessage d result

theorem SameInput.handleWrite (h : SameInput s t) (result : WriteResult) :
    SameInput { s with site := s.site.handleWrite result } t :=
  ⟨h.context, ((keptByOutput_inputBuffer _).handleWrite rfl).trans h.inputBuffer, h.events⟩

/-! ## Every run -/

/-- A chunk arrives, or the socket takes more of the output. -/
inductive ExchangeEvent where
  | deliver (d : HttpDelivery)
  | handleWrite (result : WriteResult)

namespace ExchangeEvent

def delivery? : ExchangeEvent → Option HttpDelivery
  | .deliver d => some d
  | .handleWrite _ => none

/-- The peer has not reset the connection when a reply is written. -/
def Healthy : ExchangeEvent → Prop
  | .deliver d => d.result.Healthy
  | .handleWrite _ => True

instance : DecidablePred Healthy
  | .deliver d => inferInstanceAs (Decidable d.result.Healthy)
  | .handleWrite _ => inferInstanceAs (Decidable True)

end ExchangeEvent

def exchangeStep (s : HttpSite) : ExchangeEvent → Option HttpSite
  | .deliver d => some (s.deliver d)
  | .handleWrite result => some { s with site := s.site.handleWrite result }

def exchange : Stepper HttpSite ExchangeEvent := ⟨exchangeStep⟩

/-- What arrives, with any results for the writes of the replies. -/
def arrivals (results : HttpDelivery → WriteResult) (es : List ExchangeEvent) : List HttpDelivery :=
  (es.filterMap ExchangeEvent.delivery?).map fun d => { d with result := results d }

theorem exchange_replying {es : List ExchangeEvent} (h : exchange.Run (fun _ e => e.Healthy) s es t) (hs : Replying s) :
    Replying t := by
  refine h.invariant ?_ hs
  intro s t e hs hhealthy hstep
  cases e with
  | deliver d =>
    obtain rfl := Option.some.inj hstep
    exact hs.deliver hhealthy
  | handleWrite result =>
    obtain rfl := Option.some.inj hstep
    exact hs.handleWrite result

theorem exchange_sameInput {cond : HttpSite → ExchangeEvent → Prop} {u : HttpSite} {es : List ExchangeEvent}
    (h : exchange.Run cond s es t) (results : HttpDelivery → WriteResult) (hu : SameInput s u) :
    SameInput t ((arrivals results es).foldl deliver u) := by
  induction h generalizing u with
  | nil s => exact hu
  | @cons s m t e es _ hstep _ ih =>
    cases e with
    | deliver d =>
      obtain rfl := Option.some.inj hstep
      exact ih (hu.deliver d (results d))
    | handleWrite result =>
      obtain rfl := Option.some.inj hstep
      exact ih (hu.handleWrite result)

/-- Chunks arrive on a connection and the socket takes the output, in any order and in any parts. What is served
depends on what arrives alone, not on what the writes of the replies meet. The bytes that the kernel accepted, followed by
those that wait in the output buffer, are the replies up to the first that closes the connection, and the write side is
shut down if and only if there is such a reply and the kernel has accepted everything. Responses that keep the connection
are read back by the client one by one. -/
theorem replies_on_the_wire {id fd : Nat} {es : List ExchangeEvent}
    (h : exchange.Run (fun _ e => e.Healthy) (established id fd) es t) :
    (∀ results, t.events = ((arrivals results es).foldl deliver (established id fd)).events) ∧
      accepted t.site.conn.log ++ t.site.conn.outputBuffer.readableSpan = replies t.events.reverse ∧
      (.shutdownWrite ∈ t.site.conn.log ↔
        t.events.any closes = true ∧ t.site.conn.outputBuffer.readableSpan = []) ∧
      ∀ served : List (HttpRequest × HttpResponse), t.events.reverse = served.map (fun x => .callback x.1 x.2) →
        (∀ x ∈ served, x.2.Plain) →
          ReadResponse.readAll (accepted t.site.conn.log ++ t.site.conn.outputBuffer.readableSpan) =
            some (served.map (·.2.read)) := by
  have hreplying := exchange_replying h (replying_established id fd)
  have hwire : accepted t.site.conn.log ++ t.site.conn.outputBuffer.readableSpan = replies t.events.reverse :=
    hreplying.sending.stream.trans hreplying.stream
  refine ⟨fun results => (exchange_sameInput h results ⟨rfl, rfl, rfl⟩).events, hwire, ?_, ?_⟩
  · rw [hreplying.sending.halfClosed, hreplying.closing]
  · intro served hserved hplain
    rw [hwire, hserved, readAll_replies hplain]

/-- A request in two chunks, whose reply is written in part; a request whose reply closes, and one behind it that is
served and gets no reply. -/
def lateRequest : List ExchangeEvent :=
  [.deliver (arrival (ascii "GET /a HTT")), .deliver { arrival (ascii "P/1.1\r\n\r\n") with result := .wrote 5 },
    .deliver (arrival (ascii "GET /b HTTP/1.0\r\n\r\n")), .handleWrite (.wrote 30),
    .deliver (arrival (ascii "GET /c HTTP/1.1\r\n\r\n")), .handleWrite (.wrote 1000)]

theorem replies_on_the_wire_late :
    ∃ t, exchange.Run (fun _ e => e.Healthy) (established 0 3) lateRequest t ∧ t.events.length = 3 ∧
      accepted t.site.conn.log = replies t.events.reverse ∧ .shutdownWrite ∈ t.site.conn.log := by
  have hreplay : (exchange.checked (fun _ e => e.Healthy) (established 0 3) lateRequest).any (fun t =>
      t.events.length = 3 ∧ t.events.any closes ∧ t.site.conn.outputBuffer.readableSpan = []) = true := by
    decide +kernel
  obtain ⟨t, hrun, htest⟩ := Stepper.Run.of_any hreplay
  obtain ⟨hlength, hcloses, hempty⟩ := of_decide_eq_true htest
  obtain ⟨-, hwire, hshut, -⟩ := replies_on_the_wire hrun
  rw [hempty, List.append_nil] at hwire
  exact ⟨t, hrun, hlength, hwire, hshut.mpr ⟨hcloses, hempty⟩⟩

end HttpSite
end Muduo
