import Mathlib.Algebra.GroupWithZero.Nat
import Muduo.HttpServer
import Muduo.Theorems.ConnectionRules
import Muduo.Theorems.HttpGrammar

/-! # Serving requests

What a call of `onMessage` does depends on the parser and the unread bytes only: not on the state of the
connection, and not on how many requests the bytes hold. A call serves at most one of them. -/

namespace Muduo
open Lib HttpGrammar

/-- The response to a request that a delivery completes. -/
def HttpDelivery.respond (d : HttpDelivery) (req : HttpRequest) : HttpResponse :=
  d.httpCallback req { closeConnection := HttpSite.closesByDefault req }

namespace HttpSite
variable {s : HttpSite} {d : HttpDelivery} {ds : List HttpDelivery} {bytes : Bytes}

/-! ## One call -/

/-- The context, without the receive time. -/
def parser (s : HttpSite) : HttpContext := (s.context.getD {}).untimed

def unread (s : HttpSite) : Bytes := s.inputBuffer.readableSpan

theorem keptByOutput_inputBuffer (buf : Buffer) : Site.KeptByOutput fun s => s.conn.inputBuffer = buf where
  record _ h := h
  queue _ h := h
  append h := h
  retrieve h := h
  enable _ h := h
  disable _ h := h

@[simp] theorem unread_send {message : Bytes} {result : WriteResult} : (s.send message result).unread = s.unread := by
  have h : (s.site.send message result).conn.inputBuffer = s.site.conn.inputBuffer :=
    (keptByOutput_inputBuffer _).send rfl
  exact congrArg Buffer.readableSpan h

@[simp] theorem unread_shutdown : s.shutdown.unread = s.unread := by
  have h : s.site.shutdown.conn.inputBuffer = s.site.conn.inputBuffer := by
    unfold Site.shutdown
    split
    · exact (keptByOutput_inputBuffer _).shutdownInLoop rfl
    · rfl
  exact congrArg Buffer.readableSpan h

theorem onRequest_eq (s : HttpSite) (callback : HttpCallback) (result : WriteResult) (req : HttpRequest) :
    (s.onRequest callback result req).unread = s.unread ∧
      (s.onRequest callback result req).events =
        .callback req (callback req { closeConnection := closesByDefault req }) :: s.events := by
  simp only [onRequest]
  split
  · exact ⟨unread_shutdown.trans unread_send, rfl⟩
  · exact ⟨unread_send, rfl⟩

/-- What a call leaves of the readable bytes and the parser, and what it does. -/
inductive Delivered (s : HttpSite) (d : HttpDelivery) (q : Reading UInt8 HttpContext Unit) (t : HttpSite) : Prop where
  | waits (hok : q.result = none) (hstate : q.state.state ≠ .kGotAll) (hevents : t.events = s.events)
      (hparser : t.parser = q.state) (hunread : t.unread = q.rest)
  | refuses (hbad : q.result = some ()) (hevents : t.events = .badRequest :: s.events) (hparser : t.parser = q.state)
      (hunread : t.unread = q.rest)
  | serves (req : HttpRequest) (hok : q.result = none) (hstate : q.state.state = .kGotAll)
      (hreq : req.untimed = q.state.request) (hevents : t.events = .callback req (d.respond req) :: s.events)
      (hparser : t.parser = {}) (hunread : t.unread = q.rest)

theorem onMessage_delivered (d : HttpDelivery) (s : HttpSite) :
    Delivered s d (HttpContext.reader.run s.parser s.unread) (s.onMessage d) := by
  obtain ⟨hok, hcontext, hrest⟩ := HttpContext.follows_parseRequest (s.context.getD {}) s.inputBuffer d.receiveTime
  change _ = (HttpContext.reader.run s.parser s.unread).result.isNone at hok
  change _ = (HttpContext.reader.run s.parser s.unread).state at hcontext
  change _ = (HttpContext.reader.run s.parser s.unread).rest at hrest
  generalize HttpContext.reader.run s.parser s.unread = q at hok hcontext hrest
  unfold onMessage
  generalize (s.context.getD {}).parseRequest s.inputBuffer d.receiveTime = p at hok hcontext hrest
  simp only
  cases hresult : q.result with
  | some r =>
    rw [hresult] at hok
    rw [if_pos (by simp [hok])]
    refine .refuses hresult rfl hcontext ?_
    rw [unread_shutdown, unread_send]
    exact hrest
  | none =>
    rw [hresult] at hok
    rw [if_neg (by simp [hok])]
    by_cases hgot : p.context.gotAll = true
    · rw [if_pos hgot]
      have hstate : q.state.state = .kGotAll := by
        rw [← hcontext]
        simpa [HttpContext.gotAll] using hgot
      obtain ⟨hunread, hevents⟩ := onRequest_eq { s.setInputBuffer p.buf with context := some p.context }
        d.httpCallback d.result p.context.request
      refine .serves p.context.request hresult hstate (congrArg HttpContext.request hcontext) hevents rfl ?_
      exact hunread.trans hrest
    · rw [if_neg hgot]
      have hstate : q.state.state ≠ .kGotAll := by
        rw [← hcontext]
        simpa [HttpContext.gotAll] using hgot
      exact .waits hresult hstate rfl hcontext hrest

theorem deliver_delivered (s : HttpSite) (d : HttpDelivery) :
    Delivered s d (HttpContext.reader.run s.parser (s.unread ++ d.chunk)) (s.deliver d) := by
  have hread : ({ s with site := s.site.readFd d.chunk } : HttpSite).unread = s.unread ++ d.chunk :=
    Buffer.readableSpan_readFd
  have h := onMessage_delivered d { s with site := s.site.readFd d.chunk }
  rw [hread] at h
  cases h with
  | waits hok hstate hevents hparser hunread => exact .waits hok hstate hevents hparser hunread
  | refuses hbad hevents hparser hunread => exact .refuses hbad hevents hparser hunread
  | serves req hok hstate hreq hevents hparser hunread =>
    exact .serves req hok hstate hreq hevents hparser hunread

/-! ## What a fresh parser makes of the bytes so far -/

/-- The bytes begin with what the parser takes for a request. -/
def HasRequest (bytes : Bytes) : Prop :=
  ∃ line headers last rest, Block bytes line headers last rest ∧ colon ∉ last

theorem hasRequest_iff : HasRequest bytes ↔ (HttpContext.reader.run {} bytes).state.state = .kGotAll := by
  constructor
  · rintro ⟨line, headers, last, rest, hblock, hno⟩
    obtain ⟨r, hrun, -⟩ := hblock.run hno
    rw [hrun]
  · exact block_of_gotAll

theorem run_append_gotAll (h : HasRequest bytes) (more : Bytes) :
    HttpContext.reader.run {} (bytes ++ more) =
      ⟨(HttpContext.reader.run {} bytes).state, (HttpContext.reader.run {} bytes).rest ++ more, none⟩ := by
  rw [Reader.run_append]
  apply Reader.run_wait
  have hstate := hasRequest_iff.mp h
  show HttpContext.next _ _ = _
  simp only [HttpContext.next, hstate]

theorem HasRequest.append (h : HasRequest bytes) (more : Bytes) : HasRequest (bytes ++ more) := by
  rw [hasRequest_iff, run_append_gotAll h]
  exact hasRequest_iff.mp h

/-- A request line that is refused is refused for ever. -/
theorem run_append_refused (h : (HttpContext.reader.run {} bytes).result = some ()) (more : Bytes) :
    (HttpContext.reader.run {} (bytes ++ more)).result = some () := by
  have hsettled : HttpContext.reader.Settled (HttpContext.reader.run {} bytes) := Reader.settled_run _ _
  have hstop := hsettled.stop h
  rw [Reader.run_append]
  exact congrArg Reading.result (Reader.resume_of_stop hstop more)

theorem not_hasRequest_of_refused (h : (HttpContext.reader.run {} bytes).result = some ()) : ¬HasRequest bytes := by
  rintro ⟨line, headers, last, rest, hblock, hno⟩
  obtain ⟨r, hrun, -⟩ := hblock.run hno
  rw [hrun] at h
  cases h

/-- The parser has come to where a fresh one comes on the bytes, or is fresh with all of them before it. -/
inductive At (s : HttpSite) (bytes : Bytes) : Prop where
  | fresh (hparser : s.parser = {}) (hunread : s.unread = bytes)
  | read (hparser : s.parser = (HttpContext.reader.run {} bytes).state)
      (hunread : s.unread = (HttpContext.reader.run {} bytes).rest)

theorem At.deliver (h : At s bytes) (d : HttpDelivery) :
    Delivered s d (HttpContext.reader.run {} (bytes ++ d.chunk)) (s.deliver d) := by
  have hrun : HttpContext.reader.run s.parser (s.unread ++ d.chunk) = HttpContext.reader.run {} (bytes ++ d.chunk) := by
    cases h with
    | fresh hparser hunread => rw [hparser, hunread]
    | read hparser hunread => rw [hparser, hunread, ← Reader.run_append]
  rw [← hrun]
  exact deliver_delivered s d

theorem at_established (id fd : Nat) : At (established id fd) [] := .fresh rfl Buffer.readableSpan_new

/-! ## Histories -/

/-- The events of some deliveries, in the order they happen. -/
def history (s : HttpSite) : List HttpDelivery → List HttpEvent
  | [] => []
  | d :: ds =>
    (s.deliver d).events.take ((s.deliver d).events.length - s.events.length) ++ history (s.deliver d) ds

theorem history_same (h : (s.deliver d).events = s.events) (ds : List HttpDelivery) :
    s.history (d :: ds) = (s.deliver d).history ds := by
  rw [history, h, Nat.sub_self, List.take_zero, List.nil_append]

theorem history_event {e : HttpEvent} (h : (s.deliver d).events = e :: s.events) (ds : List HttpDelivery) :
    s.history (d :: ds) = e :: (s.deliver d).history ds := by
  rw [history, h, List.length_cons, Nat.add_sub_cancel_left]
  rfl

theorem events_deliver (s : HttpSite) (ds : List HttpDelivery) :
    (ds.foldl deliver s).events = (s.history ds).reverse ++ s.events := by
  induction ds generalizing s with
  | nil => rfl
  | cons d ds ih =>
    rw [List.foldl_cons, ih]
    cases deliver_delivered s d with
    | waits _ _ hevents => rw [history_same hevents, hevents]
    | refuses _ hevents => rw [history_event hevents, hevents, List.reverse_cons, List.append_assoc]; rfl
    | serves _ _ _ _ hevents => rw [history_event hevents, hevents, List.reverse_cons, List.append_assoc]; rfl

theorem events_established (id fd : Nat) (ds : List HttpDelivery) :
    (ds.foldl deliver (established id fd)).events.reverse = (established id fd).history ds := by
  have hstart : (established id fd).events = [] := rfl
  rw [events_deliver, hstart, List.append_nil, List.reverse_reverse]

/-! ## No request is served after the server has decided to close -/

/-- The event makes the server call `shutdown`. -/
def closes : HttpEvent → Bool
  | .callback _ response => response.closeConnection
  | .badRequest => true

def isCallback : HttpEvent → Bool
  | .callback _ _ => true
  | .badRequest => false

/-- The HTTP callback is called again if and only if a call follows and the bytes come to hold a request. -/
theorem At.callback_iff (h : At s bytes) : (∃ e ∈ s.history ds, isCallback e = true) ↔
    ds ≠ [] ∧ HasRequest (bytes ++ (ds.map (·.chunk)).flatten) := by
  induction ds generalizing s bytes with
  | nil => simp [history]
  | cons d ds ih =>
    simp only [List.map_cons, List.flatten_cons, ← List.append_assoc, ne_eq, reduceCtorEq, not_false_eq_true, true_and]
    -- Without a request in the bytes so far, the later calls decide.
    have hlater : At (s.deliver d) (bytes ++ d.chunk) → ¬HasRequest (bytes ++ d.chunk) →
        ((∃ e ∈ (s.deliver d).history ds, isCallback e = true) ↔
          HasRequest (bytes ++ d.chunk ++ (ds.map (·.chunk)).flatten)) := by
      intro hat hno
      rw [ih hat]
      cases ds with
      | nil => simpa using hno
      | cons d' ds => simp
    cases h.deliver d with
    | waits _ hstate hevents hparser hunread =>
      rw [history_same hevents]
      exact hlater (.read hparser hunread) (fun hhas => hstate (hasRequest_iff.mp hhas))
    | refuses hbad hevents hparser hunread =>
      rw [history_event hevents]
      simpa [isCallback] using hlater (.read hparser hunread) (not_hasRequest_of_refused hbad)
    | serves req _ hstate _ hevents _ _ =>
      rw [history_event hevents]
      have hhas := (hasRequest_iff.mpr hstate).append (ds.map (·.chunk)).flatten
      exact ⟨fun _ => hhas, fun _ => ⟨_, List.mem_cons_self, rfl⟩⟩

theorem At.no_callback_iff (h : At s bytes) : (∀ e ∈ s.history ds, isCallback e = false) ↔
    (ds ≠ [] → ¬HasRequest (bytes ++ (ds.map (·.chunk)).flatten)) := by
  rw [← not_and, ← h.callback_iff]
  simp

/-- The delivery completes a request whose response closes the connection. -/
def ClosesAt (s : HttpSite) (d : HttpDelivery) : Prop :=
  ∃ req response, (s.deliver d).events = .callback req response :: s.events ∧ response.closeConnection = true

/-- No event that closes the connection is followed by a call of the HTTP callback. -/
def ClosedIsFinal (events : List HttpEvent) : Prop :=
  events.Pairwise fun e e' => closes e = true → isCallback e' = false

/-- No request follows one whose response closes the connection: neither in the bytes that it leaves unread, if
more arrive, nor with those that arrive. -/
def NoRequestAfterClose (s : HttpSite) (ds : List HttpDelivery) : Prop :=
  ∀ before d after, ds = before ++ d :: after → after ≠ [] → ClosesAt (before.foldl deliver s) d →
    ¬HasRequest (((before.foldl deliver s).deliver d).unread ++ (after.map (·.chunk)).flatten)

theorem closesAt_iff {e : HttpEvent} (h : (s.deliver d).events = e :: s.events) :
    ClosesAt s d ↔ isCallback e = true ∧ closes e = true := by
  constructor
  · rintro ⟨req, response, heq, hclose⟩
    rw [h] at heq
    cases heq
    exact ⟨rfl, hclose⟩
  · rintro ⟨hcallback, hclose⟩
    cases e with
    | callback req response => exact ⟨req, response, h, hclose⟩
    | badRequest => cases hcallback

theorem noRequestAfterClose_cons : NoRequestAfterClose s (d :: ds) ↔
    (ds ≠ [] → ClosesAt s d → ¬HasRequest ((s.deliver d).unread ++ (ds.map (·.chunk)).flatten)) ∧
      NoRequestAfterClose (s.deliver d) ds := by
  constructor
  · intro h
    refine ⟨h [] d ds rfl, ?_⟩
    rintro before d' after rfl
    exact h (d :: before) d' after rfl
  · rintro ⟨hfirst, hrest⟩ before d' after hsplit
    cases before with
    | nil =>
      cases hsplit
      exact hfirst
    | cons b before =>
      cases hsplit
      exact hrest before d' after rfl

theorem At.closedIsFinal_iff (h : At s bytes) : ClosedIsFinal (s.history ds) ↔ NoRequestAfterClose s ds := by
  induction ds generalizing s bytes with
  | nil => simp [history, ClosedIsFinal, NoRequestAfterClose]
  | cons d ds ih =>
    rw [noRequestAfterClose_cons]
    cases h.deliver d with
    | waits _ _ hevents hparser hunread =>
      have hnot : ¬ClosesAt s d := by
        rintro ⟨req, response, heq, -⟩
        rw [hevents] at heq
        exact absurd heq (List.cons_ne_self _ _).symm
      rw [history_same hevents, ih (.read hparser hunread)]
      simp [hnot]
    | refuses hbad hevents hparser hunread =>
      have hat : At (s.deliver d) (bytes ++ d.chunk) := .read hparser hunread
      have hnone : ∀ e ∈ (s.deliver d).history ds, isCallback e = false := by
        refine hat.no_callback_iff.mpr ?_
        intro _
        exact not_hasRequest_of_refused (run_append_refused hbad _)
      rw [history_event hevents, ClosedIsFinal, List.pairwise_cons, closesAt_iff hevents]
      refine and_congr ?_ (ih hat)
      exact ⟨fun _ _ hcloses => absurd hcloses.1 Bool.false_ne_true, fun _ e he _ => hnone e he⟩
    | serves req _ _ _ hevents hparser hunread =>
      have hat : At (s.deliver d) (s.deliver d).unread := .fresh hparser rfl
      rw [history_event hevents, ClosedIsFinal, List.pairwise_cons, closesAt_iff hevents]
      refine and_congr ?_ (ih hat)
      constructor
      · rintro hall hne ⟨-, hclose⟩
        exact hat.no_callback_iff.mp (fun e he => hall e he hclose) hne
      · intro hno e he hclose
        exact hat.no_callback_iff.mpr (fun hne => hno hne ⟨rfl, hclose⟩) e he

/-- Whatever arrives on a connection, and in whatever chunks, the HTTP callback is not called after the server has
decided to close, if and only if no request follows one whose response closes. -/
theorem closed_is_final_iff (id fd : Nat) (ds : List HttpDelivery) :
    ClosedIsFinal (ds.foldl deliver (established id fd)).events.reverse ↔
      NoRequestAfterClose (established id fd) ds := by
  rw [events_established]
  exact (at_established id fd).closedIsFinal_iff

/-- A chunk that meets a callback which leaves the response open and a socket that is full. -/
def arrival (chunk : Bytes) : HttpDelivery :=
  { chunk, receiveTime := 0, httpCallback := fun _ response => { response with statusCode := .k200Ok }
    result := .error EWOULDBLOCK }

/-- The connection is being shut down when the second request arrives, and the request is served: only the answer
is dropped. -/
theorem served_after_close :
    ((established 0 3).deliver (arrival (ascii "GET / HTTP/1.0\r\n\r\n"))).site.conn.state = .kDisconnecting ∧
      ¬ClosedIsFinal ([arrival (ascii "GET / HTTP/1.0\r\n\r\n"), arrival (ascii "GET / HTTP/1.1\r\n\r\n")].foldl
        deliver (established 0 3)).events.reverse := by
  refine ⟨by decide +kernel, ?_⟩
  unfold ClosedIsFinal
  decide +kernel

/-! ## Pipelined requests -/

/-- A request with nothing behind it: the line, header lines and the empty line. -/
def IsRequest (r : Bytes) : Prop := ∃ line headers, Block r line headers [] []

/-- What the callback is called with for a request, but for the receive time. -/
def contents (r : Bytes) : HttpRequest := (HttpContext.reader.run {} r).state.request

/-- The requests of the calls of the HTTP callback. -/
def requests (events : List HttpEvent) : List HttpRequest :=
  events.filterMap fun
    | .callback req _ => some req.untimed
    | .badRequest => none

theorem IsRequest.hasRequest {r : Bytes} (h : IsRequest r) : HasRequest r := by
  obtain ⟨line, headers, hblock⟩ := h
  exact ⟨line, headers, [], [], hblock, List.not_mem_nil⟩

theorem IsRequest.rest {r : Bytes} (h : IsRequest r) : (HttpContext.reader.run {} r).rest = [] := by
  obtain ⟨line, headers, hblock⟩ := h
  obtain ⟨req, hrun, -⟩ := hblock.run List.not_mem_nil
  rw [hrun]

theorem IsRequest.pos {r : Bytes} (h : IsRequest r) : 0 < r.length := by
  obtain ⟨line, headers, hblock⟩ := h
  rw [hblock.split]
  simp only [List.length_append, show kCRLF.length = 2 from rfl]
  omega

/-- A call that finds a whole request serves it, and leaves what is behind it. -/
theorem At.deliver_request {r more : Bytes} (h : At s bytes) (hr : IsRequest r) (heq : bytes ++ d.chunk = r ++ more) :
    ∃ req response, req.untimed = contents r ∧ (s.deliver d).events = .callback req response :: s.events ∧
      At (s.deliver d) more := by
  have hrun := run_append_gotAll hr.hasRequest more
  rw [hr.rest, List.nil_append] at hrun
  have hstep := h.deliver d
  rw [heq, hrun] at hstep
  cases hstep with
  | waits _ hstate _ _ _ => exact absurd (hasRequest_iff.mp hr.hasRequest) hstate
  | refuses hbad _ _ _ => cases hbad
  | serves req _ _ hreq hevents hparser hunread => exact ⟨req, _, hreq, hevents, .fresh hparser hunread⟩

/-- A call that finds a part of a request waits. -/
theorem At.deliver_part {r more : Bytes} (h : At s bytes) (hr : IsRequest r) (heq : r = bytes ++ d.chunk ++ more)
    (hmore : more ≠ []) : (s.deliver d).events = s.events ∧ At (s.deliver d) (bytes ++ d.chunk) := by
  cases h.deliver d with
  | waits _ _ hevents hparser hunread => exact ⟨hevents, .read hparser hunread⟩
  | refuses hbad _ _ _ =>
    have hbad' := run_append_refused hbad more
    rw [← heq] at hbad'
    exact absurd hr.hasRequest (not_hasRequest_of_refused hbad')
  | serves req _ hstate _ _ _ _ =>
    -- The bytes behind an earlier end of the request would be left.
    have hrun := run_append_gotAll (hasRequest_iff.mpr hstate) more
    have hrest := hr.rest
    rw [heq, hrun] at hrest
    exact absurd (List.append_eq_nil_iff.mp hrest).2 hmore

theorem At.deliver_nothing (h : At s []) (hchunk : d.chunk = []) :
    (s.deliver d).events = s.events ∧ At (s.deliver d) [] := by
  have hstep := h.deliver d
  rw [hchunk] at hstep
  cases hstep with
  | waits _ _ hevents hparser hunread => exact ⟨hevents, .read hparser hunread⟩
  | refuses hbad _ _ _ => cases hbad
  | serves req _ hstate _ _ _ _ => cases hstate

/-- How many requests the calls for chunks of the lengths serve, one a call, if so many bytes are there before. -/
def servedCount : List Bytes → Nat → List Nat → Nat
  | [], _, _ => 0
  | _ :: _, _, [] => 0
  | r :: rs, before, n :: lengths =>
    if r.length ≤ before + n then 1 + servedCount rs (before + n - r.length) lengths
    else servedCount (r :: rs) (before + n) lengths

theorem At.serves_count {rs : List Bytes} (h : At s bytes) (hrs : ∀ r ∈ rs, IsRequest r)
    (heq : bytes ++ (ds.map (·.chunk)).flatten = rs.flatten) :
    requests (s.history ds) = (rs.take (servedCount rs bytes.length (ds.map (·.chunk.length)))).map contents ∧
      At (ds.foldl HttpSite.deliver s) (rs.drop (servedCount rs bytes.length (ds.map (·.chunk.length)))).flatten := by
  induction ds generalizing s bytes rs with
  | nil =>
    have hcount : ∀ n, servedCount rs n [] = 0 := by
      intro n
      cases rs <;> rfl
    simp only [List.map_nil, List.flatten_nil, List.append_nil] at heq
    subst heq
    simpa [hcount, history, requests] using h
  | cons d ds ih =>
    rw [List.map_cons, List.flatten_cons, ← List.append_assoc] at heq
    cases rs with
    | nil =>
      obtain ⟨hfirst, hlater⟩ := List.append_eq_nil_iff.mp heq
      obtain ⟨rfl, hchunk⟩ := List.append_eq_nil_iff.mp hfirst
      obtain ⟨hevents, hat⟩ := h.deliver_nothing hchunk
      rw [history_same hevents, List.foldl_cons]
      simpa [servedCount] using ih hat hrs (by simpa using hlater)
    | cons r rs =>
      have hr := hrs r List.mem_cons_self
      rw [List.flatten_cons] at heq
      simp only [List.map_cons, servedCount, List.foldl_cons]
      split
      case isTrue hle =>
        have hprefix : r <+: bytes ++ d.chunk :=
          List.prefix_of_prefix_length_le ⟨_, heq.symm⟩ ⟨_, rfl⟩ (by simpa using hle)
        obtain ⟨more, hmore⟩ := hprefix
        obtain ⟨req, response, hreq, hevents, hat⟩ := h.deliver_request hr hmore.symm
        rw [← hmore, List.append_assoc] at heq
        have hlength : bytes.length + d.chunk.length - r.length = more.length := by
          rw [← List.length_append, ← hmore, List.length_append, Nat.add_sub_cancel_left]
        obtain ⟨hserved, hleft⟩ := ih hat (fun r' hr' => hrs r' (List.mem_cons_of_mem _ hr')) (List.append_cancel_left heq)
        rw [history_event hevents, hlength, Nat.add_comm 1]
        exact ⟨congrArg₂ List.cons hreq hserved, hleft⟩
      case isFalse hlt =>
        have hprefix : bytes ++ d.chunk <+: r :=
          List.prefix_of_prefix_length_le ⟨_, rfl⟩ ⟨_, heq.symm⟩ (by simp only [List.length_append]; omega)
        obtain ⟨more, hmore⟩ := hprefix
        have hne : more ≠ [] := by
          rintro rfl
          rw [← hmore] at hlt
          simp at hlt
        obtain ⟨hevents, hat⟩ := h.deliver_part hr hmore.symm hne
        rw [history_same hevents, ← List.length_append]
        exact ih hat hrs heq

/-- How many of the requests end within so many bytes. -/
def completed : List Bytes → Nat → Nat
  | [], _ => 0
  | r :: rs, n => if r.length ≤ n then 1 + completed rs (n - r.length) else 0

theorem completed_of_lt {r : Bytes} {rs : List Bytes} {n : Nat} (h : n < r.length) : completed (r :: rs) n = 0 :=
  if_neg (Nat.not_le_of_lt h)

theorem completed_add {r : Bytes} {rs : List Bytes} {n : Nat} (h : r.length ≤ n) (k : Nat) :
    completed (r :: rs) (n + k) = 1 + completed rs (n - r.length + k) := by
  rw [completed, if_pos (Nat.le_add_right_of_le h), Nat.sub_add_comm h]

/-- All requests are served if and only if so many calls are made, and after every call so many are left as there
are requests still to be completed. -/
theorem length_le_servedCount_iff {rs : List Bytes} {before : Nat} {lengths : List Nat} :
    rs.length ≤ servedCount rs before lengths ↔
      rs.length ≤ lengths.length ∧ ∀ i < lengths.length,
        rs.length ≤ completed rs (before + (lengths.take (i + 1)).sum) + (lengths.length - (i + 1)) := by
  induction lengths generalizing rs before with
  | nil => cases rs <;> simp [servedCount]
  | cons n lengths ih =>
    cases rs with
    | nil => simp [servedCount]
    | cons r rs =>
      -- The first call apart; the others are those of the induction hypothesis.
      simp only [servedCount, List.take_succ_cons, List.sum_cons, List.length_cons, Nat.add_sub_add_right,
        ← Nat.add_assoc, Nat.forall_lt_succ_left, List.take_zero, List.sum_nil]
      split
      case isTrue hle =>
        rw [Nat.add_comm 1, Nat.add_le_add_iff_right, ih]
        simp only [completed_add hle]
        constructor
        · rintro ⟨hlen, hall⟩
          refine ⟨by omega, by omega, ?_⟩
          intro i hi
          have := hall i hi
          omega
        · rintro ⟨hlen, -, hall⟩
          refine ⟨by omega, ?_⟩
          intro i hi
          have := hall i hi
          omega
      case isFalse hlt =>
        have hnone : completed (r :: rs) (before + n + 0) = 0 := completed_of_lt (Nat.lt_of_not_le hlt)
        rw [← List.length_cons (a := r), ih, hnone]
        constructor
        · rintro ⟨hlen, hall⟩
          exact ⟨by omega, by omega, hall⟩
        · rintro ⟨-, hzero, hall⟩
          exact ⟨by omega, hall⟩

/-- At every point of the stream, no more requests are still to be completed than calls are to come. -/
def KeepsUp (rs : List Bytes) (lengths : List Nat) : Prop :=
  ∀ i ≤ lengths.length, rs.length ≤ completed rs (lengths.take i).sum + (lengths.length - i)

theorem keepsUp_iff {rs : List Bytes} {lengths : List Nat} (hrs : ∀ r ∈ rs, IsRequest r) :
    KeepsUp rs lengths ↔ rs.length ≤ servedCount rs 0 lengths := by
  have hnone : completed rs 0 = 0 := by
    cases rs with
    | nil => rfl
    | cons r rs =>
      exact completed_of_lt (hrs r List.mem_cons_self).pos
  rw [length_le_servedCount_iff]
  constructor
  · intro h
    have hzero := h 0 (Nat.zero_le _)
    rw [List.take_zero, List.sum_nil, hnone] at hzero
    refine ⟨by omega, ?_⟩
    intro i hi
    simpa using h (i + 1) hi
  · rintro ⟨hlen, hall⟩ i hi
    cases i with
    | zero => omega
    | succ i => simpa using hall i hi

theorem servedCount_own (rs : List Bytes) : servedCount rs 0 (rs.map List.length) = rs.length := by
  induction rs with
  | nil => rfl
  | cons r rs ih =>
    rw [List.map_cons, servedCount, if_pos (by omega), Nat.zero_add, Nat.sub_self, ih, List.length_cons, Nat.add_comm]

theorem At.unread_nil (h : At s []) : s.unread = [] := by
  cases h with
  | fresh _ hunread => exact hunread
  | read _ hunread => exact hunread

theorem requests_established (id fd : Nat) {rs : List Bytes} (hrs : ∀ r ∈ rs, IsRequest r)
    (heq : (ds.map (·.chunk)).flatten = rs.flatten) :
    requests (ds.foldl deliver (established id fd)).events.reverse =
        (rs.take (servedCount rs 0 (ds.map (·.chunk.length)))).map contents ∧
      At (ds.foldl deliver (established id fd)) (rs.drop (servedCount rs 0 (ds.map (·.chunk.length)))).flatten := by
  rw [events_established]
  exact (at_established id fd).serves_count hrs heq

/-- Requests that arrive in whatever chunks are all served, once each and with the contents they have when each
arrives in a chunk of its own, and no byte is left unread, if and only if the calls keep up with the requests. -/
theorem pipelined_served_iff (id fd : Nat) (rs : List Bytes) (ds own : List HttpDelivery)
    (hrs : ∀ r ∈ rs, IsRequest r) (hds : (ds.map (·.chunk)).flatten = rs.flatten) (hown : own.map (·.chunk) = rs) :
    (requests (ds.foldl deliver (established id fd)).events.reverse =
          requests (own.foldl deliver (established id fd)).events.reverse ∧
        (requests (ds.foldl deliver (established id fd)).events.reverse).length = rs.length ∧
        (ds.foldl deliver (established id fd)).unread = []) ↔
      KeepsUp rs (ds.map (·.chunk.length)) := by
  obtain ⟨hserved, hleft⟩ := requests_established id fd hrs hds
  obtain ⟨hservedOwn, -⟩ := requests_established id fd hrs (congrArg List.flatten hown)
  have hlengths : own.map (·.chunk.length) = rs.map List.length := by rw [← hown, List.map_map]; rfl
  rw [hlengths, servedCount_own, List.take_length] at hservedOwn
  rw [keepsUp_iff hrs, hserved, hservedOwn]
  constructor
  · rintro ⟨-, hlength, -⟩
    rw [List.length_map, List.length_take] at hlength
    omega
  · intro hall
    rw [List.drop_of_length_le hall] at hleft
    rw [List.take_of_length_le hall]
    exact ⟨rfl, List.length_map _, hleft.unread_nil⟩

def getRequest : Bytes := ascii "GET / HTTP/1.1\r\n\r\n"

theorem isRequest_getRequest : IsRequest getRequest :=
  ⟨ascii "GET / HTTP/1.1", [], by decide, by unfold IsLine; decide, (processRequestLine_ok (r := {})).mp (by decide),
    by simp, by simp, by unfold IsLine; decide⟩

/-- The second request begins in the chunk that ends the first, and ends in the next. -/
theorem pipelined_served_overlapping :
    (requests ([arrival (getRequest ++ getRequest.take 5), arrival (getRequest.drop 5)].foldl deliver
        (established 0 3)).events.reverse).length = 2 ∧
      ([arrival (getRequest ++ getRequest.take 5), arrival (getRequest.drop 5)].foldl deliver
        (established 0 3)).unread = [] := by
  have hrs : ∀ r ∈ [getRequest, getRequest], IsRequest r := by
    intro r hr
    rw [List.mem_pair, or_self] at hr
    exact hr ▸ isRequest_getRequest
  have hserved := (pipelined_served_iff 0 3 [getRequest, getRequest]
    [arrival (getRequest ++ getRequest.take 5), arrival (getRequest.drop 5)]
    [arrival getRequest, arrival getRequest] hrs (by decide) rfl).mpr (by unfold KeepsUp; decide)
  exact hserved.2

/-- Two requests in one chunk: the second is left in the buffer, and is served only when more arrives. -/
theorem pipelined_second_left :
    IsRequest getRequest ∧
      (requests ((established 0 3).deliver (arrival (getRequest ++ getRequest))).events.reverse).length = 1 ∧
      ((established 0 3).deliver (arrival (getRequest ++ getRequest))).unread = getRequest ∧
      ((established 0 3).deliver (arrival (getRequest ++ getRequest))).site.conn.state = .kConnected :=
  ⟨isRequest_getRequest, by decide +kernel⟩

end HttpSite
end Muduo
