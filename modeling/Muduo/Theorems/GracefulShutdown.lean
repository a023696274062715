import Muduo.Theorems.ConnectionRules
import Muduo.Theorems.OutputStream

/-! # Graceful shutdown

One thread sends messages and then shuts the connection down, while the loop thread writes and runs functors.
In the loop thread the sends are done before `shutdown` begins. In another thread they are functors, and
`shutdown` sets the state before it queues its own: a drain of the buffer in between closes the write side in
front of them. When no drain comes in between, the half-close finds everything written. -/

namespace Muduo
open Lib

/-- The kernel refused a write because the peer is gone. -/
def WriteResult.isFault : WriteResult → Bool
  | .error errno => errno = EPIPE ∨ errno = ECONNRESET
  | .wrote _ => false

namespace ConnEvent

def isWrite : ConnEvent → Bool
  | .sendInLoop _ (some _) | .handleWrite _ _ => true
  | _ => false

end ConnEvent

/-- When the write side was closed the kernel had accepted `total`, and no write was tried afterwards. -/
def LosesNothing (total : Bytes) (log : List ConnEvent) : Prop :=
  ∀ newer older, log = newer ++ .shutdownWrite :: older → accepted older = total ∧ ∀ e ∈ newer, e.isWrite = false

section Log
variable {total : Bytes} {log : List ConnEvent} {e : ConnEvent}

theorem LosesNothing.of_not_mem (h : .shutdownWrite ∉ log) : LosesNothing total log := by
  rintro newer older rfl
  simp at h

theorem LosesNothing.cons (h : LosesNothing total log) (hclose : e = .shutdownWrite → accepted log = total)
    (hwrite : e.isWrite = true → .shutdownWrite ∉ log) : LosesNothing total (e :: log) := by
  intro newer older heq
  cases newer with
  | nil =>
    obtain ⟨rfl, rfl⟩ := List.cons.inj heq
    exact ⟨hclose rfl, by simp⟩
  | cons e' newer =>
    obtain ⟨rfl, rfl⟩ := List.cons.inj heq
    obtain ⟨haccepted, hnewer⟩ := h newer older rfl
    refine ⟨haccepted, fun e' he' => ?_⟩
    rcases List.mem_cons.mp he' with rfl | he'
    · exact Bool.eq_false_iff.mpr fun hw => hwrite hw (by simp)
    · exact hnewer e' he'

end Log

/-! ## The thread that shuts down, and the loop -/

inductive Stage where
  | sending
  /-- `shutdown` has set the state and not queued its functor. -/
  | queueing
  | done
  deriving DecidableEq

/-- A connection and the thread that sends on it and shuts it down. -/
structure Sender where
  site : Site
  inLoopThread : Bool
  todo : List Bytes
  stage : Stage := .sending

inductive SenderEvent where
  | send (result : WriteResult)
  | shutdown
  | queueShutdown
  | handleWrite (result : WriteResult)
  | doPendingFunctors
  | runFunctor (result : WriteResult)

namespace Sender

def queueElsewhere (f : Functor) (s : Sender) : Sender :=
  { s with site := { s.site with loop := { s.site.loop with queue := s.site.loop.queue.queueInLoop false f } } }

def send (message : Bytes) (result : WriteResult) (s : Sender) : Sender :=
  if s.inLoopThread then { s with site := s.site.send message result }
  else if s.site.conn.state = .kConnected then s.queueElsewhere (.sendInLoop s.site.conn.id message)
  else s

/-- `shutdown`; in another thread up to the queueing of its functor. -/
def shutdown (s : Sender) : Sender :=
  if s.inLoopThread then { s with site := s.site.shutdown, stage := .done }
  else if s.site.conn.state = .kConnected then { s with site := s.site.setState .kDisconnecting, stage := .queueing }
  else { s with stage := .done }

/-- A functor of the output. The user's callbacks do nothing to the connection. -/
def runFunctor (f : Functor) (result : WriteResult) (s : Site) : Site :=
  match f with
  | .sendInLoop _ message => s.sendInLoop message result
  | .shutdownInLoop _ => s.shutdownInLoop
  | _ => s

def setFunctors (functors : List Functor) (s : Site) : Site :=
  { s with loop := { s.loop with queue := { s.loop.queue with functors := functors } } }

def step (s : Sender) : SenderEvent → Option Sender
  | .send result =>
    match s.todo with
    | [] => none
    | message :: todo => some { s.send message result with todo := todo }
  | .shutdown => if s.stage = .sending ∧ s.todo = [] then some s.shutdown else none
  | .queueShutdown =>
    if s.stage = .queueing then some { s.queueElsewhere (.shutdownInLoop s.site.conn.id) with stage := .done }
    else none
  | .handleWrite result =>
    if s.site.loop.queue.functors = [] then some { s with site := s.site.handleWrite result } else none
  | .doPendingFunctors =>
    if s.site.loop.queue.functors = [] then
      some { s with site := { s.site with loop := { s.site.loop with queue := s.site.loop.queue.swapFunctors } } }
    else none
  | .runFunctor result =>
    match s.site.loop.queue.functors with
    | [] => none
    | f :: rest => some { s with site := runFunctor f result (setFunctors rest s.site) }

/-- The sends, the shutdown and the loop, in any interleaving. -/
def system : Stepper Sender SenderEvent := ⟨step⟩

def result : SenderEvent → Option WriteResult
  | .send r | .handleWrite r | .runFunctor r => some r
  | _ => none

/-- Up to the half-close no write fails with `EPIPE` or `ECONNRESET`. -/
def Faultless (s : Sender) (e : SenderEvent) : Prop :=
  .shutdownWrite ∈ s.site.conn.log ∨ (result e).all (!·.isFault) = true

/-- The functors of the connection that the loop has still to run, in their order. -/
def pending (s : Site) : List Functor :=
  (s.loop.queue.functors ++ s.loop.queue.pendingFunctors).filter (!Functor.isCallback ·)

def message : Functor → Bytes
  | .sendInLoop _ m => m
  | _ => []

def isSend : Functor → Bool
  | .sendInLoop _ _ => true
  | _ => false

/-- A write event takes all that the buffer holds. -/
def drains (s : Site) : WriteResult → Bool
  | .wrote n => s.conn.channel.isWriting && s.conn.outputBuffer.readableBytes ≤ n
  | .error _ => false

/-- No write event drains the buffer between the set of the state in `shutdown` and the last of the sends that
    are queued. -/
def DrainsLast (s : Sender) : SenderEvent → Prop
  | .handleWrite r =>
    s.site.conn.state = .kDisconnecting → drains s.site r = true → (pending s.site).all (!isSend ·) = true
  | _ => True

instance (s : Sender) (e : SenderEvent) : Decidable (Faultless s e) := inferInstanceAs (Decidable (_ ∨ _))

instance (s : Sender) (e : SenderEvent) : Decidable (DrainsLast s e) :=
  match e with
  | .handleWrite _ => inferInstanceAs (Decidable (_ → _ → _ = _))
  | .send _ | .shutdown | .queueShutdown | .doPendingFunctors | .runFunctor _ => instDecidableTrue

/-- An established connection, before the thread has begun. -/
structure Ready (s : Sender) : Prop where
  state : s.site.conn.state = .kConnected
  stage : s.stage = .sending
  output : Site.Output s.site
  notClosed : .shutdownWrite ∉ s.site.conn.log
  pending : pending s.site = []

/-! ## What a write event does to the log -/

/-- A write event finds the channel not writing, or writes, or drains the buffer and closes the write side. -/
theorem handleWrite_log (s : Site) (r : WriteResult) :
    s.handleWrite r = s ∨
      s.conn.channel.isWriting = true ∧
        ((s.handleWrite r).conn.log = .handleWrite s.conn.outputBuffer.readableSpan r :: s.conn.log ∨
          (s.handleWrite r).conn.log =
              .shutdownWrite :: .handleWrite s.conn.outputBuffer.readableSpan r :: s.conn.log ∧
            s.conn.state = .kDisconnecting ∧ drains s r = true ∧
            (s.handleWrite r).conn.channel.isWriting = false) := by
  unfold Site.handleWrite
  split
  case isFalse => exact Or.inl rfl
  case isTrue hwriting =>
    refine Or.inr ⟨hwriting, ?_⟩
    unfold Site.handleWritten
    split
    · exact Or.inl rfl
    · rename_i n
      dsimp only
      split
      · rename_i hempty
        have hdrains : drains s (.wrote (n + 1)) = true := by
          rw [Buffer.readableBytes_eq_zero, Site.retrieveOutput, Buffer.readableSpan_retrieve,
            List.drop_eq_nil_iff, Buffer.length_readableSpan] at hempty
          simpa [drains, hwriting] using hempty
        obtain ⟨-, hoff, hlog, -⟩ := Site.drained_conn
          ((s.record (.handleWrite s.conn.outputBuffer.readableSpan (.wrote (n + 1)))).retrieveOutput (n + 1))
        split at hlog
        · rename_i hstate
          exact Or.inr ⟨hlog, hstate, hdrains, hoff⟩
        · exact Or.inl hlog
      · exact Or.inl rfl
    · exact Or.inl rfl

/-! ## What the steps do to the queue -/

section Pending
variable {s : Site} {f : Functor} {rest : List Functor}

@[simp] theorem pending_queueInLoop (s : Site) (f : Functor) (b : Bool) :
    pending { s with loop := { s.loop with queue := s.loop.queue.queueInLoop b f } } =
      pending s ++ [f].filter (!Functor.isCallback ·) := by
  simp [pending, ← List.append_assoc]

theorem mem_of_queued {g : Functor} (hg : g ∈ pending s ++ [f].filter (!Functor.isCallback ·)) :
    g ∈ pending s ∨ g = f :=
  (List.mem_append.mp hg).imp_right fun h => List.mem_singleton.mp (List.mem_filter.mp h).1

/-- The output functions queue callbacks of the user only. -/
theorem pending_keptByOutput (fs : List Functor) : Site.KeptByOutput (fun s => pending s = fs) where
  record _ h := h
  queue hf h := by
    refine (pending_queueInLoop _ _ true).trans ?_
    simp [hf, h]
  append h := h
  retrieve h := h
  enable _ h := h
  disable _ h := h

theorem pending_of_head (hf : s.loop.queue.functors = f :: rest) :
    pending s = [f].filter (!Functor.isCallback ·) ++ pending (setFunctors rest s) := by
  cases hc : f.isCallback <;> simp [pending, setFunctors, hf, hc]

theorem pending_swapFunctors (hf : s.loop.queue.functors = []) :
    pending { s with loop := { s.loop with queue := s.loop.queue.swapFunctors } } = pending s := by
  simp [pending, LoopQueue.swapFunctors, hf]

end Pending

/-! ## The invariant -/

/-- What was sent, then `inHand`, then the sends in the queue and the messages to come are `total`. The sends in
    the queue are in front of the shutdown, and the write side is open while there are any. -/
structure Graceful (total inHand : Bytes) (s : Sender) : Prop where
  output : Site.Output s.site
  owed : stream s.site.conn.log ++ (inHand ++ ((pending s.site).flatMap message ++ s.todo.flatten)) = total
  order : (pending s.site).Pairwise fun f g => isSend g = true → isSend f = true
  state : s.site.conn.state = if s.stage = .sending then .kConnected else .kDisconnecting
  todo : s.stage ≠ .sending → s.todo = []
  queueing : s.stage ≠ .done → ∀ f ∈ pending s.site, isSend f = true
  inLoop : s.inLoopThread = true → pending s.site = [] ∧ s.stage ≠ .queueing
  log : LosesNothing total s.site.conn.log
  closed : .shutdownWrite ∈ s.site.conn.log →
    s.stage ≠ .sending ∧ s.site.conn.channel.isWriting = false ∧ ∀ f ∈ pending s.site, isSend f = false

section Steps
variable {total m : Bytes} {s : Sender} {r : WriteResult}

theorem message_eq_nil {f : Functor} (h : isSend f = false) : message f = [] := by
  cases f <;> first | rfl | cases h

theorem accepted_eq_stream {s : Site} (h : Site.Output s) (hw : s.conn.channel.isWriting = false) :
    accepted s.conn.log = stream s.conn.log := by
  have hempty : s.conn.outputBuffer.readableSpan = [] :=
    Decidable.not_not.mp fun hne => by simp [h.writing.mpr hne] at hw
  rw [← h.stream, hempty, List.append_nil]

/-- Once the thread is done and no send is queued, all is sent. -/
theorem Graceful.settled (h : Graceful total [] s) (hstage : s.stage ≠ .sending)
    (hp : ∀ f ∈ pending s.site, isSend f = false) : stream s.site.conn.log = total := by
  have hmessages : (pending s.site).flatMap message = [] :=
    List.flatMap_eq_nil_iff.mpr fun f hf => message_eq_nil (hp f hf)
  simpa [hmessages, h.todo hstage] using h.owed

theorem Graceful.ne_kDisconnected (h : Graceful total m s) : s.site.conn.state ≠ .kDisconnected := by
  rw [h.state]
  split <;> decide

theorem streamed_sendInLoop {d : Option WriteResult} (hd : d.all (!·.isFault) = true) :
    (ConnEvent.sendInLoop m d).streamed = m := by
  match d with
  | none | some (.wrote _) => rfl
  | some (.error errno) =>
    simp only [Option.all_some, WriteResult.isFault, Bool.not_eq_true', decide_eq_false_iff_not] at hd
    simp [ConnEvent.streamed, hd]

theorem Graceful.sendInLoop (h : Graceful total m s) (hopen : .shutdownWrite ∉ s.site.conn.log)
    (hr : r.isFault = false) : Graceful total [] { s with site := s.site.sendInLoop m r } := by
  have hlog := Site.sendInLoop_log s.site m r h.ne_kDisconnected
  have hpending : pending (s.site.sendInLoop m r) = pending s.site := (pending_keptByOutput _).sendInLoop rfl
  have hopen' : .shutdownWrite ∉ (s.site.sendInLoop m r).conn.log := by simp [hlog, hopen]
  exact {
    output := h.output.sendInLoop h.ne_kDisconnected
    owed := by
      rw [hlog, hpending, stream_cons, streamed_sendInLoop (by split <;> simp [hr]), ← h.owed]
      simp
    order := hpending ▸ h.order
    state := (Site.sendInLoop_state _ _ _).trans h.state
    todo := h.todo
    queueing := hpending ▸ h.queueing
    inLoop := hpending ▸ h.inLoop
    log := .of_not_mem hopen'
    closed := fun hc => absurd hc hopen' }

theorem Graceful.shutdownInLoop (h : Graceful total [] s) (hstage : s.stage ≠ .sending)
    (hp : ∀ f ∈ pending s.site, isSend f = false) :
    Graceful total [] { s with site := s.site.shutdownInLoop } := by
  unfold Site.shutdownInLoop
  split
  case isTrue => exact h
  case isFalse hw =>
    have hw : s.site.conn.channel.isWriting = false := Bool.not_eq_true _ ▸ hw
    have haccepted : accepted s.site.conn.log = total := (accepted_eq_stream h.output hw).trans (h.settled hstage hp)
    have hpending : pending (s.site.record .shutdownWrite) = pending s.site := rfl
    exact {
      output := ⟨by simpa [ConnEvent.accepted, ConnEvent.streamed] using h.output.stream, h.output.writing⟩
      owed := by simpa [ConnEvent.streamed, hpending] using h.owed
      order := h.order
      state := h.state
      todo := h.todo
      queueing := h.queueing
      inLoop := h.inLoop
      log := h.log.cons (fun _ => haccepted) (by rintro ⟨⟩)
      closed := fun _ => ⟨hstage, hw, hp⟩ }

/-- A drain that closes the write side comes after the sends. -/
theorem Graceful.of_drains (h : Graceful total m s) (hlast : DrainsLast s (.handleWrite r))
    (hstate : s.site.conn.state = .kDisconnecting) (hdrains : drains s.site r = true) :
    s.stage ≠ .sending ∧ ∀ f ∈ pending s.site, isSend f = false := by
  refine ⟨fun hs => ?_, by simpa using hlast hstate hdrains⟩
  simp [h.state, hs] at hstate

theorem Graceful.handleWrite (h : Graceful total [] s) (hlast : DrainsLast s (.handleWrite r)) :
    Graceful total [] { s with site := s.site.handleWrite r } := by
  have hpending : pending (s.site.handleWrite r) = pending s.site := (pending_keptByOutput _).handleWrite rfl
  have hout : Site.Output (s.site.handleWrite r) := h.output.handleWrite
  rcases handleWrite_log s.site r with hsame | ⟨hwriting, hlog⟩
  · rw [hsame]
    exact h
  -- The channel was writing, so the write side was open.
  have hopen : .shutdownWrite ∉ s.site.conn.log := fun hc => by simp [(h.closed hc).2.1] at hwriting
  have hwrote : LosesNothing total (.handleWrite s.site.conn.outputBuffer.readableSpan r :: s.site.conn.log) :=
    h.log.cons (by simp) (fun _ => hopen)
  have hstream : stream (s.site.handleWrite r).conn.log = stream s.site.conn.log := by
    rcases hlog with hlog | ⟨hlog, -⟩ <;> simp [hlog, ConnEvent.streamed]
  refine {
    output := hout
    owed := by rw [hstream, hpending]; exact h.owed
    order := hpending ▸ h.order
    state := (Site.handleWrite_keeps _ _).1.trans h.state
    todo := h.todo
    queueing := hpending ▸ h.queueing
    inLoop := hpending ▸ h.inLoop
    log := ?_
    closed := ?_ }
  · rcases hlog with hlog | ⟨hlog, hstate, hdrains, hoff⟩
    · exact hlog ▸ hwrote
    · obtain ⟨hstage, hp⟩ := h.of_drains hlast hstate hdrains
      have haccepted := accepted_eq_stream hout hoff
      rw [hstream, h.settled hstage hp, hlog, accepted_cons] at haccepted
      rw [hlog]
      exact hwrote.cons (e := .shutdownWrite) (fun _ => by simpa [ConnEvent.accepted] using haccepted)
        (by rintro ⟨⟩)
  · intro hc
    rcases hlog with hlog | ⟨hlog, hstate, hdrains, hoff⟩
    · simp [hlog, hopen] at hc
    · obtain ⟨hstage, hp⟩ := h.of_drains hlast hstate hdrains
      exact ⟨hstage, hoff, hpending ▸ hp⟩

/-- The head of the batch is taken out: a send is in hand, and behind a shutdown there is no send. -/
theorem Graceful.pop (h : Graceful total [] s) {f : Functor} {rest : List Functor}
    (hf : s.site.loop.queue.functors = f :: rest) :
    Graceful total (message f) { s with site := setFunctors rest s.site } ∧
      (isSend f = true → .shutdownWrite ∉ s.site.conn.log) ∧
      (isSend f = false → f.isCallback = false → s.stage ≠ .sending ∧
        ∀ g ∈ pending (setFunctors rest s.site), isSend g = false) := by
  have hp := pending_of_head hf
  have hsub : ∀ g ∈ pending (setFunctors rest s.site), g ∈ pending s.site :=
    fun g hg => hp ▸ List.mem_append_right _ hg
  have hmem : f.isCallback = false → f ∈ pending s.site := fun hc => by simp [hp, hc]
  have hsend : isSend f = true → f.isCallback = false := by cases f <;> simp [isSend, Functor.isCallback]
  have horder := h.order
  rw [hp, List.pairwise_append] at horder
  refine ⟨?_, ?_, ?_⟩
  · have hmessage : ([f].filter (!Functor.isCallback ·)).flatMap message = message f := by
      cases f <;> simp [Functor.isCallback, message]
    exact {
      output := ⟨h.output.stream, h.output.writing⟩
      owed := by
        have howed := h.owed
        rw [hp, List.flatMap_append, hmessage] at howed
        simpa [setFunctors] using howed
      order := horder.2.1
      state := h.state
      todo := h.todo
      queueing := fun hs g hg => h.queueing hs g (hsub g hg)
      inLoop := fun hl =>
        ⟨List.eq_nil_iff_forall_not_mem.mpr fun g hg => by simpa [(h.inLoop hl).1] using hsub g hg, (h.inLoop hl).2⟩
      log := h.log
      closed := fun hc => ⟨(h.closed hc).1, (h.closed hc).2.1, fun g hg => (h.closed hc).2.2 g (hsub g hg)⟩ }
  · intro hs hc
    simp [(h.closed hc).2.2 f (hmem (hsend hs))] at hs
  · intro hs hc
    refine ⟨fun hstage => ?_, fun g hg => ?_⟩
    · simp [h.queueing (by simp [hstage]) f (hmem hc)] at hs
    · refine Bool.eq_false_iff.mpr fun hg' => ?_
      simp [horder.2.2 f (by simp [hc]) g hg hg'] at hs

/-- Up to the end of `shutdown` the queue holds sends only, so any functor may be queued behind them. -/
theorem Graceful.order_queued (h : Graceful total m s) (hstage : s.stage ≠ .done) (f : Functor) :
    (pending s.site ++ [f].filter (!Functor.isCallback ·)).Pairwise
      fun f g => isSend g = true → isSend f = true := by
  refine List.pairwise_append.mpr ⟨h.order, List.Pairwise.filter _ (List.pairwise_singleton _ _), ?_⟩
  intro g hg _ _ _
  exact h.queueing hstage g hg

theorem Graceful.send (h : Graceful total [] s) {todo : List Bytes} (htodo : s.todo = m :: todo)
    (hr : Faultless s (.send r)) : Graceful total [] { s.send m r with todo := todo } := by
  have hstage : s.stage = .sending := Decidable.not_not.mp fun hne => by simp [h.todo hne] at htodo
  have hstate : s.site.conn.state = .kConnected := by rw [h.state, if_pos hstage]
  have hopen : .shutdownWrite ∉ s.site.conn.log := fun hc => (h.closed hc).1 hstage
  have howed : stream s.site.conn.log ++ ((pending s.site).flatMap message ++ (m ++ todo.flatten)) = total := by
    simpa [htodo] using h.owed
  unfold Sender.send
  split
  case isTrue hloop =>
    -- Nothing is queued in front of the message.
    have htaken : Graceful total m { s with todo := todo } :=
      { h with
        owed := by simpa [(h.inLoop hloop).1] using howed
        todo := fun hne => absurd hstage hne }
    rw [Site.send, if_pos hstate]
    exact htaken.sendInLoop hopen (by simpa [Faultless, hopen, result] using hr)
  case isFalse hloop =>
    have hp := pending_queueInLoop s.site (.sendInLoop s.site.conn.id m) false
    simp only [queueElsewhere]
    exact {
      output := ⟨h.output.stream, h.output.writing⟩
      owed := by
        simp only [hp]
        simpa [Functor.isCallback, message] using howed
      order := by
        simp only [hp]
        exact h.order_queued (by simp [hstage]) _
      state := h.state
      todo := fun hne => absurd hstage hne
      queueing := fun hs f hf => by
        simp only [hp] at hf
        rcases mem_of_queued hf with hf | rfl
        · exact h.queueing hs f hf
        · rfl
      inLoop := fun hl => absurd hl hloop
      log := h.log
      closed := fun hc => absurd hc hopen }

theorem Graceful.shutdown (h : Graceful total [] s) (hstage : s.stage = .sending) (htodo : s.todo = []) :
    Graceful total [] s.shutdown := by
  have hstate : s.site.conn.state = .kConnected := by rw [h.state, if_pos hstage]
  have hopen : .shutdownWrite ∉ s.site.conn.log := fun hc => (h.closed hc).1 hstage
  have hset : ∀ {stage : Stage}, stage ≠ .sending → (s.inLoopThread = true → stage ≠ .queueing) →
      Graceful total [] { s with site := s.site.setState .kDisconnecting, stage := stage } := fun hne hqueue =>
    { output :=
        ⟨by simpa [Site.setState, ConnEvent.accepted, ConnEvent.streamed] using h.output.stream, h.output.writing⟩
      owed := by
        rw [show pending (s.site.setState .kDisconnecting) = pending s.site from rfl]
        simpa [Site.setState, ConnEvent.streamed] using h.owed
      order := h.order
      state := by simp [Site.setState, hne]
      todo := fun _ => htodo
      queueing := fun _ => h.queueing (by simp [hstage])
      inLoop := fun hl => ⟨(h.inLoop hl).1, hqueue hl⟩
      log := h.log.cons (e := .setState .kDisconnecting) (by simp) (by rintro ⟨⟩)
      closed := fun hc => by simp [Site.setState, hopen] at hc }
  unfold Sender.shutdown
  split
  case isTrue hloop =>
    rw [Site.shutdown, if_pos hstate]
    refine Graceful.shutdownInLoop (s := { s with site := s.site.setState .kDisconnecting, stage := .done })
      (hset (by decide) fun _ => by decide) (by simp) fun f hf => ?_
    have hnil : pending (s.site.setState .kDisconnecting) = [] := (h.inLoop hloop).1
    simp [hnil] at hf
  case isFalse hloop => exact hset (by decide) fun hl => absurd hl hloop

theorem Graceful.queueShutdown (h : Graceful total [] s) (hstage : s.stage = .queueing) :
    Graceful total [] { s.queueElsewhere (.shutdownInLoop s.site.conn.id) with stage := .done } := by
  have hp := pending_queueInLoop s.site (.shutdownInLoop s.site.conn.id) false
  have hne : s.stage ≠ .sending := by simp [hstage]
  have hloop : s.inLoopThread ≠ true := fun hl => (h.inLoop hl).2 hstage
  simp only [queueElsewhere]
  exact {
    output := ⟨h.output.stream, h.output.writing⟩
    owed := by
      simp only [hp]
      simpa [Functor.isCallback, message] using h.owed
    order := by
      simp only [hp]
      exact h.order_queued (by simp [hstage]) _
    state := by simpa [hstage] using h.state
    todo := fun _ => h.todo hne
    queueing := fun hd => absurd rfl hd
    inLoop := fun hl => absurd hl hloop
    log := h.log
    closed := fun hc => by
      refine ⟨by simp, (h.closed hc).2.1, fun f hf => ?_⟩
      simp only [hp] at hf
      rcases mem_of_queued hf with hf | rfl
      · exact (h.closed hc).2.2 f hf
      · rfl }

end Steps

/-! ## Every run -/

theorem Graceful.step {total : Bytes} {s t : Sender} {e : SenderEvent} (h : Graceful total [] s)
    (hfault : Faultless s e) (hlast : DrainsLast s e) (hstep : s.step e = some t) : Graceful total [] t := by
  cases e with
  | send r =>
    simp only [Sender.step] at hstep
    split at hstep
    · cases hstep
    · rename_i htodo
      obtain rfl := Option.some.inj hstep
      exact h.send htodo hfault
  | shutdown =>
    obtain ⟨⟨hstage, htodo⟩, ⟨⟩⟩ := Option.ite_none_right_eq_some.mp hstep
    exact h.shutdown hstage htodo
  | queueShutdown =>
    obtain ⟨hstage, ⟨⟩⟩ := Option.ite_none_right_eq_some.mp hstep
    exact h.queueShutdown hstage
  | handleWrite r =>
    obtain ⟨-, ⟨⟩⟩ := Option.ite_none_right_eq_some.mp hstep
    exact h.handleWrite hlast
  | doPendingFunctors =>
    obtain ⟨hf, ⟨⟩⟩ := Option.ite_none_right_eq_some.mp hstep
    have hp := pending_swapFunctors hf
    exact {
      output := ⟨h.output.stream, h.output.writing⟩
      owed := by simpa only [hp] using h.owed
      order := by simpa only [hp] using h.order
      state := h.state
      todo := h.todo
      queueing := by simpa only [hp] using h.queueing
      inLoop := by simpa only [hp] using h.inLoop
      log := h.log
      closed := by simpa only [hp] using h.closed }
  | runFunctor r =>
    simp only [Sender.step] at hstep
    split at hstep
    · cases hstep
    · rename_i f rest hf
      obtain rfl := Option.some.inj hstep
      obtain ⟨hpop, hsend, hclose⟩ := h.pop hf
      cases f with
      | sendInLoop i m => exact hpop.sendInLoop (hsend rfl) (by simpa [Faultless, hsend rfl, result] using hfault)
      | shutdownInLoop i => exact hpop.shutdownInLoop (hclose rfl rfl).1 (hclose rfl rfl).2
      | _ => exact hpop

theorem Ready.graceful {s : Sender} (h : Ready s) :
    Graceful (stream s.site.conn.log ++ s.todo.flatten) [] s where
  output := h.output
  owed := by simp [h.pending]
  order := by simp [h.pending]
  state := by rw [h.state, if_pos h.stage]
  todo hne := absurd h.stage hne
  queueing := by simp [h.pending]
  inLoop _ := ⟨h.pending, by simp [h.stage]⟩
  log := .of_not_mem h.notClosed
  closed hc := absurd hc h.notClosed

/-- In every run in which the buffer is not drained between the state change of `shutdown` and the queued sends,
    the half-close finds every byte accepted by the kernel, and no write is tried after it. -/
theorem shutdown_loses_nothing {s t : Sender} {es : List SenderEvent} (hs : Ready s)
    (h : system.Run (fun s e => Faultless s e ∧ DrainsLast s e) s es t) :
    LosesNothing (stream s.site.conn.log ++ s.todo.flatten) t.site.conn.log :=
  (h.invariant (fun hg hc hstep => hg.step hc.1 hc.2 hstep) hs.graceful).log

def elsewhere (todo : List Bytes) : Sender where
  site :=
    { conn :=
      { id := 0, state := .kConnected, channel := { id := .connection 0, fd := 5 }, outputBuffer := .new 2 } }
  inLoopThread := false
  todo := todo

theorem ready_elsewhere (todo : List Bytes) : Ready (elsewhere todo) where
  state := rfl
  stage := rfl
  output := by
    have hempty : (elsewhere todo).site.conn.outputBuffer.readableSpan = [] := Buffer.readableSpan_new (n := 2)
    refine ⟨hempty, iff_of_false ?_ fun h => h hempty⟩
    simp [elsewhere, Channel.isWriting, Mask.has]
  notClosed := List.not_mem_nil
  pending := rfl

/-- The first message is written in three parts, and the state changes while both sends are in the batch. -/
theorem shutdown_loses_nothing_partial :
    ∃ t, system.Run (fun s e => Faultless s e ∧ DrainsLast s e) (elsewhere [[1, 2, 3], [4]])
        [.send (.wrote 0), .send (.wrote 0), .doPendingFunctors, .shutdown, .runFunctor (.wrote 1),
          .runFunctor (.wrote 0), .handleWrite (.wrote 1), .queueShutdown, .doPendingFunctors,
          .runFunctor (.wrote 0), .handleWrite (.wrote 2)] t ∧
      .shutdownWrite ∈ t.site.conn.log ∧ accepted t.site.conn.log = [1, 2, 3, 4] ∧
      LosesNothing [1, 2, 3, 4] t.site.conn.log :=
  Stepper.Run.replay rfl fun run =>
    ⟨by decide, rfl, shutdown_loses_nothing (ready_elsewhere [[1, 2, 3], [4]]) run⟩

/-- The buffer is drained after `shutdown` has set the state, with the second message still in the queue: the
    write side is closed first, and the message is written into the closed socket. -/
theorem send_cut_off :
    ∃ t, system.Run Faultless (elsewhere [[1, 2, 3], [4]])
        [.send (.wrote 0), .doPendingFunctors, .runFunctor (.wrote 1), .send (.wrote 0), .shutdown,
          .handleWrite (.wrote 2), .queueShutdown, .doPendingFunctors, .runFunctor (.error EPIPE)] t ∧
      Ready (elsewhere [[1, 2, 3], [4]]) ∧ accepted t.site.conn.log = [1, 2, 3] ∧
      ¬LosesNothing [1, 2, 3, 4] t.site.conn.log :=
  Stepper.Run.replay rfl fun _ =>
    ⟨ready_elsewhere _, rfl, fun h => absurd (h [_] _ rfl).1 (by decide)⟩

end Sender
end Muduo
