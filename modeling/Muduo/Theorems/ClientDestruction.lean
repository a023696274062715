import Muduo.ClientThreads
import Muduo.Lib.Threads

/-! # Destroying a client in another thread

A client has at most one connection that is not closed, and `connectDestroyed` has run once for each closed one. When the
destructor starts while the loop thread is in no call, and no close is handled before the close callback is replaced, this
connection is closed by the functors of the destructor. -/

namespace Muduo
open Lib

namespace ClientConn
variable {v : ClientConn} {target : CloseTarget}

def Fresh (v : ClientConn) : Prop :=
  v.state = .kConnecting ∧ v.reading = false ∧ v.closeCallback = .client ∧ v.destroyed = 0

def Up (target : CloseTarget) (v : ClientConn) : Prop :=
  v.isUp = true ∧ v.reading = true ∧ v.closeCallback = target ∧ v.destroyed = 0

/-- `handleClose` has begun. -/
def Closing (target : CloseTarget) (v : ClientConn) : Prop :=
  v.state = .kDisconnected ∧ v.reading = false ∧ v.closeCallback = target ∧ v.destroyed = 0

def Closed (v : ClientConn) : Prop := v.state = .kDisconnected ∧ v.reading = false ∧ v.destroyed = 1

theorem Closed.not_isUp (h : v.Closed) : v.isUp ≠ true := by
  simp [isUp, h.1]

end ClientConn

def ClientFunctor.isClose : ClientFunctor → Bool
  | .setCloseCallback _ | .forceCloseInLoop _ => true
  | .startInLoop | .stopInLoop | .resetChannel => false

/-- What may still lead to a connection. -/
def ClientConnector.active (s : ClientConnector) : Nat := s.retryTimers + if s.state = .kDisconnected then 0 else 1

namespace ClientConnector
variable {s t : ClientConnector} {r : ConnectResult}

theorem active_setRetry (h : s.state ≠ .kDisconnected) : s.setRetry.active ≤ s.active := by
  simp only [active, setRetry, if_neg h]
  split <;> simp

theorem active_popTimer (h : 0 < s.retryTimers) : s.popTimer.active + 1 = s.active := by
  show s.retryTimers - 1 + (if s.state = .kDisconnected then 0 else 1) + 1 = s.active
  rw [active]
  omega

theorem startInLoop_spec (h : s.startInLoop r = some t) :
    s.state = .kDisconnected ∧ t.active ≤ s.active + 1 ∧ t.connect = s.connect := by
  unfold startInLoop at h
  split at h
  · rename_i hstate
    refine ⟨hstate, ?_⟩
    split at h
    · cases r with
      | connecting =>
        cases h
        exact ⟨by simp [active, hstate], rfl⟩
      | retry =>
        cases h
        refine ⟨?_, rfl⟩
        simp only [active, setRetry, hstate]
        split <;> simp
      | close =>
        cases h
        exact ⟨Nat.le_succ _, rfl⟩
    · cases h
      exact ⟨Nat.le_succ _, rfl⟩
  · cases h

end ClientConnector

namespace ClientThreads
variable {s t : ClientThreads} {c : Nat} {r : ConnectResult}

/-! ## The invariant -/

/-- The functors of the destructor that are queued. -/
def closers (s : ClientThreads) : List ClientFunctor := s.queue.filter (·.isClose)

/-- The destructor is in `forceClose`. -/
def InForceClose (c : Nat) (d : DestructorAt) : Prop := d = .testState c ∨ d = .setDisconnecting c ∨ d = .queueForceClose c

/-- How far the destructor and its functors are, with the close callback that the connection then has. -/
inductive Pending (c : Nat) : DestructorAt → List ClientFunctor → CloseTarget → Prop
  | notCalled : Pending c .notCalled [] .client
  | queueStop : Pending c .queueStop [] .client
  | readConnection : Pending c .readConnection [] .client
  | queueSetCloseCallback : Pending c (.queueSetCloseCallback c) [] .client
  | queued {d : DestructorAt} (hd : InForceClose c d) : Pending c d [.setCloseCallback c] .client
  | replaced {d : DestructorAt} (hd : InForceClose c d) : Pending c d [] .detail
  | returned : Pending c .returned [.setCloseCallback c, .forceCloseInLoop c] .client
  | returnedReplaced : Pending c .returned [.forceCloseInLoop c] .detail

namespace Pending
variable {c' : Nat} {d : DestructorAt} {fs : List ClientFunctor} {target : CloseTarget}

theorem of_notCalled (h : Pending c .notCalled fs target) : fs = [] ∧ target = .client := by
  cases h with
  | notCalled => exact ⟨rfl, rfl⟩
  | queued hd => rcases hd with hd | hd | hd <;> cases hd
  | replaced hd => rcases hd with hd | hd | hd <;> cases hd

theorem of_returned (h : Pending c .returned fs target) :
    fs = [.setCloseCallback c, .forceCloseInLoop c] ∧ target = .client ∨ fs = [.forceCloseInLoop c] ∧ target = .detail := by
  cases h with
  | returned => exact .inl ⟨rfl, rfl⟩
  | returnedReplaced => exact .inr ⟨rfl, rfl⟩
  | queued hd => rcases hd with hd | hd | hd <;> cases hd
  | replaced hd => rcases hd with hd | hd | hd <;> cases hd

/-- The functor that replaces the close callback is the next. -/
theorem of_set (h : Pending c d (.setCloseCallback c' :: fs) target) : c' = c ∧ Pending c d fs .detail := by
  cases h with
  | queued hd => exact ⟨rfl, .replaced hd⟩
  | returned => exact ⟨rfl, .returnedReplaced⟩

theorem of_force (h : Pending c d (.forceCloseInLoop c' :: fs) target) :
    c' = c ∧ d = .returned ∧ target = .detail ∧ fs = [] := by
  cases h with
  | returnedReplaced => exact ⟨rfl, rfl, rfl, rfl⟩

end Pending

/-- The destructor has not found a connection. -/
def FoundNone (d : DestructorAt) : Prop := d = .queueStop ∨ d = .readConnection ∨ d = .runAfter ∨ d = .returned

/-- What the life of a connection depends on. -/
structure View where
  conns : List ClientConn
  connection : Option Nat
  closers : List ClientFunctor
  loopAt : ClientLoopAt
  destructorAt : DestructorAt

def view (s : ClientThreads) : View := ⟨s.conns, s.connection, s.closers, s.loopAt, s.destructorAt⟩

/-- Where the last connection is in its life. All others are closed. -/
inductive Life (s : View) : Prop
  | none (hall : ∀ v ∈ s.conns, v.Closed) (hconnection : s.connection = none) (hclosers : s.closers = [])
      (hloop : s.loopAt = .idle ∨ s.loopAt = .newConnection ∨ s.loopAt = .testRetry ∨ s.loopAt = .restart ∨
        s.loopAt = .startInLoop)
      (hdestructor : s.destructorAt = .notCalled ∨ s.loopAt = .idle ∧ FoundNone s.destructorAt)
  | made (c : Nat) (hconn : Apart ClientConn.Closed ClientConn.Fresh s.conns c) (hconnection : s.connection = none)
      (hclosers : s.closers = []) (hloop : s.loopAt = .setConnection c) (hdestructor : s.destructorAt = .notCalled)
  | set (c : Nat) (hconn : Apart ClientConn.Closed ClientConn.Fresh s.conns c) (hconnection : s.connection = some c)
      (hclosers : s.closers = []) (hloop : s.loopAt = .connectEstablished c) (hdestructor : s.destructorAt = .notCalled)
  | up (c : Nat) (target : CloseTarget) (hconn : Apart ClientConn.Closed (ClientConn.Up target) s.conns c)
      (hconnection : s.connection = some c) (hloop : s.loopAt = .idle)
      (hpending : Pending c s.destructorAt s.closers target)
  | closing (c : Nat) (hconn : Apart ClientConn.Closed (ClientConn.Closing .client) s.conns c)
      (hconnection : s.connection = some c) (hclosers : s.closers = [])
      (hloop : s.loopAt = .closeCallback c ∨ s.loopAt = .resetConnection c) (hdestructor : s.destructorAt = .notCalled)
  | removed (c : Nat) (hconn : Apart ClientConn.Closed (ClientConn.Closing .client) s.conns c)
      (hconnection : s.connection = none) (hclosers : s.closers = []) (hloop : s.loopAt = .connectDestroyed c)
      (hdestructor : s.destructorAt = .notCalled)
  | detached (c : Nat) (hconn : Apart ClientConn.Closed (ClientConn.Closing .detail) s.conns c)
      (hconnection : s.connection = some c) (hclosers : s.closers = [.forceCloseInLoop c] ∨ s.closers = [])
      (hloop : s.loopAt = .closeCallback c ∨ s.loopAt = .removeConnection c) (hdestructor : s.destructorAt = .returned)
  | gone (c : Nat) (hall : ∀ v ∈ s.conns, v.Closed) (hclosers : s.closers = [.forceCloseInLoop c] ∨ s.closers = [])
      (hloop : s.loopAt = .idle) (hdestructor : s.destructorAt = .returned)

/-- Everything that is going to call `startInLoop`, or has done so. -/
def starts (s : ClientThreads) : Nat :=
  s.queue.count .startInLoop + s.connector.active + if s.loopAt = .startInLoop then 1 else 0

/-- The connector has passed a socket on. -/
def InUse (s : ClientThreads) : Prop := s.connection ≠ none ∨ s.loopAt ≠ .idle ∧ s.loopAt ≠ .startInLoop

structure Inv (s : ClientThreads) : Prop where
  dangling : s.dangling = []
  stopped : s.destructorAt ≠ .notCalled → s.connector.connect = false
  inUse : s.InUse → s.connector.state = .kConnected
  starts : s.starts ≤ 1
  life : Life s.view

theorem called_of_ne (call : ClientCall) (h : s.destructorAt ≠ .returned) : s.called call = s := if_neg h

@[simp] theorem closers_append (fs : List ClientFunctor) :
    closers { s with queue := s.queue ++ fs } = s.closers ++ fs.filter (·.isClose) := by
  simp [closers]

/-- The connections, the loop thread, the destructor and its functors stay as they are. -/
theorem Inv.of_view (hs : Inv s) (hview : t.view = s.view) (hdangling : t.dangling = s.dangling)
    (hstopped : s.destructorAt ≠ .notCalled → s.connector.connect = false → t.connector.connect = false)
    (hinUse : s.connector.state = .kConnected → t.connector.state = .kConnected) (hstarts : t.starts ≤ 1) : Inv t := by
  have hconnection : t.connection = s.connection := congrArg View.connection hview
  have hloop : t.loopAt = s.loopAt := congrArg View.loopAt hview
  have hdestructor : t.destructorAt = s.destructorAt := congrArg View.destructorAt hview
  refine ⟨hdangling.trans hs.dangling, ?_, ?_, hstarts, hview ▸ hs.life⟩
  · intro hcalled
    rw [hdestructor] at hcalled
    exact hstopped hcalled (hs.stopped hcalled)
  · intro huse
    rw [InUse, hconnection, hloop] at huse
    exact hinUse (hs.inUse huse)

/-- Between two calls of the loop thread: no connection is left, or the last one is up, or it was closed after the
destructor. -/
theorem Inv.of_idle (hs : Inv s) (hidle : s.loopAt = .idle) :
    (∀ v ∈ s.conns, v.Closed) ∧ s.connection = none ∧ s.closers = [] ∧
        (s.destructorAt = .notCalled ∨ FoundNone s.destructorAt) ∨
      (∃ c target, Apart ClientConn.Closed (ClientConn.Up target) s.conns c ∧ s.connection = some c ∧
        Pending c s.destructorAt s.closers target) ∨
      ∃ c, (∀ v ∈ s.conns, v.Closed) ∧ (s.closers = [.forceCloseInLoop c] ∨ s.closers = []) ∧
        s.destructorAt = .returned := by
  cases hs.life with
  | none hall hconnection hclosers _ hdestructor =>
    exact .inl ⟨hall, hconnection, hclosers, hdestructor.imp_right And.right⟩
  | made _ _ _ _ hat => cases hidle.symm.trans hat
  | set _ _ _ _ hat => cases hidle.symm.trans hat
  | up c target hconn hconnection _ hpending => exact .inr (.inl ⟨c, target, hconn, hconnection, hpending⟩)
  | closing _ _ _ _ hat => rcases hat with hat | hat <;> cases hidle.symm.trans hat
  | removed _ _ _ _ hat => cases hidle.symm.trans hat
  | detached _ _ _ _ hat => rcases hat with hat | hat <;> cases hidle.symm.trans hat
  | gone c hall hclosers _ hdestructor => exact .inr (.inr ⟨c, hall, hclosers, hdestructor⟩)

theorem starts_le (hs : s.starts ≤ 1) (hcount : t.queue.count .startInLoop ≤ s.queue.count .startInLoop)
    (hactive : t.connector.active ≤ s.connector.active) (hloop : t.loopAt = .startInLoop → s.loopAt = .startInLoop) :
    t.starts ≤ 1 := by
  unfold starts at hs ⊢
  split at hs
  · split <;> omega
  · rename_i hne
    rw [if_neg fun heq => hne (hloop heq)]
    omega

/-! ## The owner -/

theorem Inv.connect (hs : Inv s) (hdestructor : s.destructorAt = .notCalled) (hstarted : s.notStarted = true) :
    Inv s.callConnect := by
  simp only [notStarted, Bool.and_eq_true, decide_eq_true_eq, Bool.not_eq_true', beq_iff_eq] at hstarted
  obtain ⟨⟨⟨hstate, htimers⟩, hqueue⟩, hloop⟩ := hstarted
  refine hs.of_view ?_ rfl ?_ ?_ ?_
  · simp [view, callConnect, queueInLoop, closers, ClientFunctor.isClose]
  · intro hcalled
    exact absurd hdestructor hcalled
  · exact fun hconnected => hconnected
  · have hcount : s.queue.count .startInLoop = 0 := List.count_eq_zero.mpr (by simpa using hqueue)
    simp [ClientThreads.starts, callConnect, queueInLoop, ClientConnector.active, hcount, hstate, htimers, hloop]

theorem Inv.stop (hs : Inv s) : Inv s.stop := by
  refine hs.of_view ?_ rfl (fun _ _ => rfl) (fun hconnected => hconnected) ?_
  · simp [view, ClientThreads.stop, queueInLoop, closers, ClientFunctor.isClose]
  · refine starts_le hs.starts ?_ (Nat.le_refl _) (fun heq => heq)
    simp [ClientThreads.stop, queueInLoop]

theorem Inv.disconnect (hs : Inv s) (hdestructor : s.destructorAt = .notCalled) : Inv s.disconnect := by
  simp only [ClientThreads.disconnect]
  split
  · exact hs.of_view rfl rfl (fun _ hstopped => hstopped) (fun hconnected => hconnected) hs.starts
  · rename_i c hsome
    refine ⟨hs.dangling, hs.stopped, hs.inUse, hs.starts, ?_⟩
    cases hs.life with
    | none _ hconnection => cases hconnection.symm.trans hsome
    | made _ _ hconnection => cases hconnection.symm.trans hsome
    | set c' hconn hconnection hclosers hloop =>
      cases hconnection.symm.trans hsome
      refine .set c (hconn.modify ?_) hconnection hclosers hloop hdestructor
      intro v hv
      rw [if_neg (by simp [hv.1])]
      exact hv
    | up c' target hconn hconnection hloop hpending =>
      cases hconnection.symm.trans hsome
      refine .up c target (hconn.modify ?_) hconnection hloop hpending
      intro v hv
      split
      · exact ⟨by simp [ClientConn.isUp], hv.2⟩
      · exact hv
    | closing c' hconn hconnection hclosers hloop =>
      cases hconnection.symm.trans hsome
      refine .closing c (hconn.modify ?_) hconnection hclosers hloop hdestructor
      intro v hv
      rw [if_neg (by simp [hv.1])]
      exact hv
    | removed _ _ hconnection => cases hconnection.symm.trans hsome
    | detached _ _ _ _ _ hreturned => cases hdestructor.symm.trans hreturned
    | gone _ _ _ _ hreturned => cases hdestructor.symm.trans hreturned

/-! ## The connector -/

theorem Inv.startInLoop (hs : Inv s) (hloop : s.loopAt = .idle)
    (hnone : s.queue.count .startInLoop + s.connector.active = 0) (h : s.startInLoop r = some t) : Inv t := by
  unfold ClientThreads.startInLoop at h
  split at h
  · obtain ⟨c, hc, rfl⟩ := Option.map_eq_some_iff.mp h
    obtain ⟨hstate, hactive, hconnect⟩ := ClientConnector.startInLoop_spec hc
    refine hs.of_view rfl rfl ?_ ?_ ?_
    · intro _ hstopped
      exact hconnect.trans hstopped
    · intro hconnected
      cases hstate.symm.trans hconnected
    · rw [ClientThreads.starts, if_neg (by simp [hloop])]
      show s.queue.count .startInLoop + c.active + 0 ≤ 1
      omega
  · cases h
    exact hs

theorem Inv.stopInLoop (hs : Inv s) : Inv s.stopInLoop := by
  unfold ClientThreads.stopInLoop
  split
  · rename_i hconnecting
    refine hs.of_view ?_ rfl (fun _ hstopped => hstopped) ?_ ?_
    · simp [view, queueInLoop, closers, ClientFunctor.isClose]
    · intro hconnected
      cases hconnecting.2.symm.trans hconnected
    · refine starts_le hs.starts (by simp [queueInLoop]) ?_ (fun heq => heq)
      simp [queueInLoop, ClientConnector.active, hconnecting.2]
  · exact hs

theorem Inv.handleError (hs : Inv s) (hstate : s.connector.state = .kConnecting) : Inv s.handleError := by
  refine hs.of_view ?_ rfl (fun _ hstopped => hstopped) ?_ ?_
  · simp [view, ClientThreads.handleError, queueInLoop, closers, ClientFunctor.isClose]
  · intro hconnected
    cases hstate.symm.trans hconnected
  · refine starts_le hs.starts (by simp [ClientThreads.handleError, queueInLoop]) ?_ (fun heq => heq)
    exact ClientConnector.active_setRetry (by simp [hstate])

/-- While the connector is connecting the client has no connection, unless the destructor has closed it. -/
theorem Inv.none_of_connecting (hs : Inv s) (hloop : s.loopAt = .idle) (hstate : s.connector.state = .kConnecting)
    (hdestructor : s.destructorAt = .notCalled) : (∀ v ∈ s.conns, v.Closed) ∧ s.connection = none ∧ s.closers = [] := by
  have hnone : s.connection = none := by
    by_contra hsome
    cases hstate.symm.trans (hs.inUse (.inl hsome))
  rcases hs.of_idle hloop with ⟨hall, -, hclosers, -⟩ | ⟨_, _, _, hconnection, -⟩ | ⟨_, _, _, hreturned⟩
  · exact ⟨hall, hnone, hclosers⟩
  · cases hnone.symm.trans hconnection
  · cases hdestructor.symm.trans hreturned

theorem Inv.handleWrite {connected : Bool} (hs : Inv s) (hloop : s.loopAt = .idle)
    (hstate : s.connector.state = .kConnecting) : Inv (s.handleWrite connected) := by
  have hcount : (s.queue ++ [ClientFunctor.resetChannel]).count .startInLoop = s.queue.count .startInLoop := by simp
  have hclosers : closers { s with queue := s.queue ++ [.resetChannel] } = s.closers := by
    simp [ClientFunctor.isClose]
  simp only [ClientThreads.handleWrite]
  split
  · split
    · rename_i hconnect
      have hdestructor : s.destructorAt = .notCalled := by
        by_contra hcalled
        cases (hs.stopped hcalled).symm.trans hconnect
      obtain ⟨hall, hconnection, hnone⟩ := hs.none_of_connecting hloop hstate hdestructor
      refine ⟨hs.dangling, fun hcalled => absurd hdestructor hcalled, fun _ => rfl, ?_, ?_⟩
      · refine starts_le hs.starts (Nat.le_of_eq hcount) ?_ (fun heq => by cases heq)
        simp [goTo, queueInLoop, ClientConnector.active, hstate]
      · exact .none hall hconnection (hclosers.trans hnone) (.inr (.inl rfl)) (.inl hdestructor)
    · refine hs.of_view ?_ rfl (fun _ hstopped => hstopped) (fun _ => rfl) ?_
      · simp [view, queueInLoop, closers, ClientFunctor.isClose]
      · refine starts_le hs.starts (Nat.le_of_eq hcount) ?_ (fun heq => heq)
        simp [queueInLoop, ClientConnector.active, hstate]
  · refine hs.of_view ?_ rfl (fun _ hstopped => hstopped) ?_ ?_
    · simp [view, queueInLoop, closers, ClientFunctor.isClose]
    · intro hconnected
      cases hstate.symm.trans hconnected
    · refine starts_le hs.starts (Nat.le_of_eq hcount) ?_ (fun heq => heq)
      exact ClientConnector.active_setRetry (by simp [queueInLoop, hstate])

theorem Inv.retryTimer (hs : Inv s) (hloop : s.loopAt = .idle) (htimers : 0 < s.connector.retryTimers)
    (h : ClientThreads.startInLoop r { s with connector := s.connector.popTimer } = some t) : Inv t := by
  have hstarts := hs.starts
  rw [ClientThreads.starts, if_neg (by simp [hloop])] at hstarts
  have hactive := ClientConnector.active_popTimer htimers
  have hpopped : Inv { s with connector := s.connector.popTimer } := by
    refine hs.of_view rfl rfl (fun _ hstopped => hstopped) (fun hconnected => hconnected) ?_
    exact starts_le hs.starts (Nat.le_refl _) (Nat.le_of_succ_le (Nat.le_of_eq hactive)) (fun heq => heq)
  refine hpopped.startInLoop hloop ?_ h
  show s.queue.count .startInLoop + s.connector.popTimer.active = 0
  omega

/-! ## Closing -/

/-- The connection that is up is the last one. -/
theorem Inv.up_of_isUp {v : ClientConn} (hs : Inv s) (hloop : s.loopAt = .idle) (hv : s.conns[c]? = some v)
    (hup : v.isUp = true) : ∃ target, Apart ClientConn.Closed (ClientConn.Up target) s.conns c ∧
      s.connection = some c ∧ Pending c s.destructorAt s.closers target := by
  have hne : ¬ v.Closed := fun hclosed => hclosed.not_isUp hup
  rcases hs.of_idle hloop with ⟨hall, -⟩ | ⟨c', target, hconn, hconnection, hpending⟩ | ⟨_, hall, -⟩
  · exact absurd (hall v (List.mem_of_getElem? hv)) hne
  · obtain rfl := hconn.index_eq hv hne
    exact ⟨target, hconn, hconnection, hpending⟩
  · exact absurd (hall v (List.mem_of_getElem? hv)) hne

/-- `handleClose`: the close callback is that of the client only before the destructor. -/
theorem Inv.handleClose {target : CloseTarget} {rest : List ClientFunctor} (hs : Inv s)
    (hrest : rest.count .startInLoop ≤ s.queue.count .startInLoop)
    (hconn : Apart ClientConn.Closed (ClientConn.Up target) s.conns c) (hconnection : s.connection = some c)
    (htarget : target = .client ∧ s.destructorAt = .notCalled ∧ rest.filter (·.isClose) = [] ∨
      target = .detail ∧ s.destructorAt = .returned ∧
        (rest.filter (·.isClose) = [.forceCloseInLoop c] ∨ rest.filter (·.isClose) = [])) :
    Inv ({ s with queue := rest }.handleClose c) := by
  have hclosing : Apart ClientConn.Closed (ClientConn.Closing target)
      (s.conns.modify c fun v => { v with state := .kDisconnected, reading := false }) c := by
    refine hconn.modify ?_
    intro v hv
    exact ⟨rfl, rfl, hv.2.2⟩
  refine ⟨hs.dangling, hs.stopped, ?_, ?_, ?_⟩
  · intro _
    refine hs.inUse (.inl ?_)
    rw [hconnection]
    exact Option.some_ne_none c
  · exact starts_le hs.starts hrest (Nat.le_refl _) (fun heq => by cases heq)
  · rcases htarget with ⟨rfl, hdestructor, hclosers⟩ | ⟨rfl, hdestructor, hclosers⟩
    · exact .closing c hclosing hconnection hclosers (.inl rfl) hdestructor
    · exact .detached c hclosing hconnection hclosers (.inl rfl) hdestructor

theorem Inv.close (hs : Inv s) (hloop : s.loopAt = .idle)
    (hup : (s.conns[c]?).any (fun v => v.reading && v.isUp) = true)
    (hquiet : s.destructorAt = .notCalled ∨ s.destructorAt = .returned ∧ .setCloseCallback c ∉ s.queue) :
    Inv (s.handleClose c) := by
  rw [Option.any_eq_true] at hup
  obtain ⟨v, hv, hup⟩ := hup
  rw [Bool.and_eq_true] at hup
  obtain ⟨target, hconn, hconnection, hpending⟩ := hs.up_of_isUp hloop hv hup.2
  have hrest : s.queue.count .startInLoop ≤ s.queue.count .startInLoop := Nat.le_refl _
  refine hs.handleClose hrest hconn hconnection ?_
  rcases hquiet with hdestructor | ⟨hdestructor, hrun⟩
  · rw [hdestructor] at hpending
    obtain ⟨hclosers, htarget⟩ := hpending.of_notCalled
    exact .inl ⟨htarget, hdestructor, hclosers⟩
  · rw [hdestructor] at hpending
    rcases hpending.of_returned with ⟨hclosers, -⟩ | ⟨hclosers, htarget⟩
    · have hmem : .setCloseCallback c ∈ s.closers := by simp [hclosers]
      exact absurd (List.mem_of_mem_filter hmem) hrun
    · exact .inr ⟨htarget, hdestructor, .inl hclosers⟩

/-! ## The functors -/

theorem closers_of_queue {f : ClientFunctor} {rest : List ClientFunctor} (hqueue : s.queue = f :: rest) :
    s.closers = if f.isClose then f :: rest.filter (·.isClose) else rest.filter (·.isClose) := by
  rw [closers, hqueue, List.filter_cons]

/-- The functors that are not of the destructor. -/
theorem Inv.popped {f : ClientFunctor} {rest : List ClientFunctor} (hs : Inv s) (hqueue : s.queue = f :: rest)
    (hf : f.isClose = false) : Inv { s with queue := rest } := by
  refine hs.of_view ?_ rfl (fun _ hstopped => hstopped) (fun hconnected => hconnected) ?_
  · simp [view, closers, hqueue, hf]
  · refine starts_le hs.starts ?_ (Nat.le_refl _) (fun heq => heq)
    rw [hqueue]
    exact List.count_le_count_cons

theorem Inv.functor_startInLoop {rest : List ClientFunctor} (hs : Inv s) (hloop : s.loopAt = .idle)
    (hqueue : s.queue = .startInLoop :: rest)
    (h : ClientThreads.startInLoop r { s with queue := rest } = some t) : Inv t := by
  refine (hs.popped hqueue rfl).startInLoop hloop ?_ h
  have hstarts := hs.starts
  rw [ClientThreads.starts, if_neg (by simp [hloop]), hqueue, List.count_cons_self] at hstarts
  show rest.count .startInLoop + s.connector.active = 0
  omega

theorem Inv.functor_setCloseCallback {rest : List ClientFunctor} (hs : Inv s) (hloop : s.loopAt = .idle)
    (hqueue : s.queue = .setCloseCallback c :: rest) :
    Inv ({ s with queue := rest }.modifyConn c fun v => { v with closeCallback := .detail }) := by
  have hclosers : s.closers = .setCloseCallback c :: rest.filter (·.isClose) := closers_of_queue hqueue
  refine ⟨hs.dangling, hs.stopped, hs.inUse, ?_, ?_⟩
  · refine starts_le hs.starts ?_ (Nat.le_refl _) (fun heq => heq)
    rw [hqueue]
    exact List.count_le_count_cons
  · rcases hs.of_idle hloop with ⟨-, -, hnone, -⟩ | ⟨c', target, hconn, hconnection, hpending⟩ | ⟨_, _, hnone, -⟩
    · cases hnone.symm.trans hclosers
    · rw [hclosers] at hpending
      obtain ⟨rfl, hpending⟩ := hpending.of_set
      refine .up c .detail (hconn.modify ?_) hconnection hloop hpending
      intro v hv
      exact ⟨hv.1, hv.2.1, rfl, hv.2.2.2⟩
    · rcases hnone with hnone | hnone <;> cases hnone.symm.trans hclosers

theorem Inv.functor_forceCloseInLoop {rest : List ClientFunctor} (hs : Inv s) (hloop : s.loopAt = .idle)
    (hqueue : s.queue = .forceCloseInLoop c :: rest) :
    Inv (if (s.conns[c]?).any (·.isUp) then { s with queue := rest }.handleClose c else { s with queue := rest }) := by
  have hclosers : s.closers = .forceCloseInLoop c :: rest.filter (·.isClose) := closers_of_queue hqueue
  have hrest : rest.count .startInLoop ≤ s.queue.count .startInLoop := by
    rw [hqueue]
    exact List.count_le_count_cons
  split
  · rename_i hup
    rw [Option.any_eq_true] at hup
    obtain ⟨v, hv, hup⟩ := hup
    obtain ⟨target, hconn, hconnection, hpending⟩ := hs.up_of_isUp hloop hv hup
    rw [hclosers] at hpending
    obtain ⟨-, hdestructor, htarget, hnone⟩ := hpending.of_force
    exact hs.handleClose hrest hconn hconnection (.inr ⟨htarget, hdestructor, .inr hnone⟩)
  · rename_i hdown
    refine ⟨hs.dangling, hs.stopped, hs.inUse, starts_le hs.starts hrest (Nat.le_refl _) (fun heq => heq), ?_⟩
    rcases hs.of_idle hloop with ⟨-, -, hnone, -⟩ | ⟨c', target, hconn, -, hpending⟩ | ⟨c', hall, hforce, hdestructor⟩
    · cases hnone.symm.trans hclosers
    · rw [hclosers] at hpending
      obtain ⟨rfl, -⟩ := hpending.of_force
      obtain ⟨⟨v, hv, hup⟩, -⟩ := hconn
      exact absurd (by simp [hv, hup.1]) hdown
    · refine .gone c' hall (.inr ?_) hloop hdestructor
      rcases hforce with hforce | hforce
      · exact (List.cons.inj (hclosers.symm.trans hforce)).2
      · cases hforce.symm.trans hclosers

theorem Inv.functor {f : ClientFunctor} {rest : List ClientFunctor} (hs : Inv s) (hloop : s.loopAt = .idle)
    (hqueue : s.queue = f :: rest) (h : functor f r { s with queue := rest } = some t) : Inv t := by
  cases f with
  | startInLoop => exact hs.functor_startInLoop hloop hqueue h
  | stopInLoop =>
    cases h
    exact (hs.popped hqueue rfl).stopInLoop
  | resetChannel =>
    cases h
    exact hs.popped hqueue rfl
  | setCloseCallback c =>
    cases h
    exact hs.functor_setCloseCallback hloop hqueue
  | forceCloseInLoop c =>
    cases h
    exact hs.functor_forceCloseInLoop hloop hqueue

/-! ## The calls of the loop thread -/

theorem closed_of_closing {target : CloseTarget} (hconn : Apart ClientConn.Closed (ClientConn.Closing target) s.conns c) :
    ∀ v ∈ (s.connectDestroyed c).conns, v.Closed := by
  have hclosed : Apart ClientConn.Closed ClientConn.Closed (s.connectDestroyed c).conns c := by
    refine hconn.modify ?_
    intro v hv
    have hdown : v.isUp = false := by simp [ClientConn.isUp, hv.1]
    simp [ClientConn.Closed, hdown, hv.1, hv.2.1, hv.2.2.2]
  exact hclosed.forall_mem fun _ hv => hv

/-- The loop thread goes on with a call for a connection. -/
theorem Inv.goes_on {conns : List ClientConn} {connection : Option Nat} {loopAt : ClientLoopAt} (hs : Inv s)
    (hbusy : s.loopAt ≠ .idle ∧ s.loopAt ≠ .startInLoop) (hloop : loopAt ≠ .startInLoop)
    (hlife : Life ⟨conns, connection, s.closers, loopAt, s.destructorAt⟩) :
    Inv { s with conns, connection, loopAt } := by
  refine ⟨hs.dangling, hs.stopped, fun _ => hs.inUse (.inr hbusy), ?_, hlife⟩
  exact starts_le hs.starts (Nat.le_refl _) (Nat.le_refl _) (fun heq => absurd heq hloop)

/-- No connection, and the loop thread is between `handleWrite` and `newConnection` or at the end of `removeConnection`. -/
theorem Inv.loop_none (hs : Inv s) (hall : ∀ v ∈ s.conns, v.Closed) (hconnection : s.connection = none)
    (hclosers : s.closers = []) (hdestructor : s.destructorAt = .notCalled)
    (hloop : s.loopAt = .newConnection ∨ s.loopAt = .testRetry ∨ s.loopAt = .restart ∨ s.loopAt = .startInLoop)
    (h : s.loop r = some t) : Inv t := by
  rcases hloop with hloop | hloop | hloop | hloop
  · simp only [ClientThreads.loop, hloop, called_of_ne (s := s) .newConnection (by simp [hdestructor])] at h
    cases h
    refine hs.goes_on (by simp [hloop]) ClientLoopAt.noConfusion ?_
    exact .made _ (apart_concat hall ⟨rfl, rfl, rfl, rfl⟩) hconnection hclosers rfl hdestructor
  · simp only [ClientThreads.loop, hloop] at h
    cases h
    refine hs.goes_on (by simp [hloop]) ?_ (.none hall hconnection hclosers ?_ (.inl hdestructor))
    · split <;> exact ClientLoopAt.noConfusion
    · dsimp only
      split
      · exact .inr (.inr (.inr (.inl rfl)))
      · exact .inl rfl
  · simp only [ClientThreads.loop, hloop] at h
    cases h
    have hstate := hs.inUse (.inr (by simp [hloop]))
    refine ⟨hs.dangling, fun hcalled => absurd hdestructor hcalled, ?_, ?_, ?_⟩
    · rintro (hsome | ⟨-, hne⟩)
      · exact absurd hconnection hsome
      · exact absurd rfl hne
    · -- The connector was connected; now it is the call that counts.
      have hstarts := hs.starts
      simpa [ClientThreads.starts, ClientConnector.active, goTo, hloop, hstate, Nat.add_assoc] using hstarts
    · exact .none hall hconnection hclosers (.inr (.inr (.inr (.inr rfl)))) (.inl hdestructor)
  · simp only [ClientThreads.loop, hloop] at h
    obtain ⟨connector, hconnector, rfl⟩ := Option.map_eq_some_iff.mp h
    obtain ⟨-, hactive, -⟩ := ClientConnector.startInLoop_spec hconnector
    refine ⟨hs.dangling, fun hcalled => absurd hdestructor hcalled, ?_, ?_, ?_⟩
    · rintro (hsome | ⟨hne, -⟩)
      · exact absurd hconnection hsome
      · exact absurd rfl hne
    · have hstarts := hs.starts
      rw [ClientThreads.starts, if_pos hloop] at hstarts
      show s.queue.count .startInLoop + connector.active + 0 ≤ 1
      omega
    · exact .none hall hconnection hclosers (.inl rfl) (.inl hdestructor)

theorem loop_of_idle (hloop : s.loopAt = .idle) : s.loop r = none := by
  simp only [loop, hloop]

/-- In `newConnection`. -/
theorem Inv.loop_fresh (hs : Inv s) (hconn : Apart ClientConn.Closed ClientConn.Fresh s.conns c)
    (hclosers : s.closers = []) (hdestructor : s.destructorAt = .notCalled)
    (hloop : s.loopAt = .setConnection c ∨ s.loopAt = .connectEstablished c ∧ s.connection = some c)
    (h : s.loop r = some t) : Inv t := by
  rcases hloop with hloop | ⟨hloop, hconnection⟩
  · simp only [ClientThreads.loop, hloop] at h
    cases h
    refine hs.goes_on (by simp [hloop]) ClientLoopAt.noConfusion ?_
    exact .set c hconn rfl hclosers rfl hdestructor
  · simp only [ClientThreads.loop, hloop] at h
    cases h
    refine hs.goes_on (by simp [hloop]) ClientLoopAt.noConfusion ?_
    refine .up c .client (hconn.modify ?_) hconnection rfl ?_
    · intro v hv
      exact ⟨by simp [ClientConn.isUp], rfl, hv.2.2⟩
    · show Pending c s.destructorAt s.closers .client
      rw [hdestructor, hclosers]
      exact .notCalled

/-- In `handleClose` and `removeConnection` of the client. -/
theorem Inv.loop_closing (hs : Inv s) (hconn : Apart ClientConn.Closed (ClientConn.Closing .client) s.conns c)
    (hclosers : s.closers = []) (hdestructor : s.destructorAt = .notCalled)
    (hloop : (s.loopAt = .closeCallback c ∨ s.loopAt = .resetConnection c) ∧ s.connection = some c ∨
      s.loopAt = .connectDestroyed c ∧ s.connection = none)
    (h : s.loop r = some t) : Inv t := by
  rcases hloop with ⟨hloop | hloop, hconnection⟩ | ⟨hloop, hconnection⟩
  · obtain ⟨v, hv, hclosing⟩ := hconn.1
    simp only [ClientThreads.loop, hloop, hv, hclosing.2.2.1,
      called_of_ne (s := s) (.removeConnection c) (by simp [hdestructor])] at h
    cases h
    refine hs.goes_on (by simp [hloop]) ClientLoopAt.noConfusion ?_
    exact .closing c hconn hconnection hclosers (.inr rfl) hdestructor
  · simp only [ClientThreads.loop, hloop, hconnection, if_true] at h
    cases h
    refine hs.goes_on (by simp [hloop]) ClientLoopAt.noConfusion ?_
    exact .removed c hconn rfl hclosers rfl hdestructor
  · simp only [ClientThreads.loop, hloop] at h
    cases h
    refine hs.goes_on (by simp [hloop]) ClientLoopAt.noConfusion ?_
    exact .none (closed_of_closing hconn) hconnection hclosers (.inr (.inr (.inl rfl))) (.inl hdestructor)

/-- In `handleClose` after the destructor. -/
theorem Inv.loop_detached (hs : Inv s) (hconn : Apart ClientConn.Closed (ClientConn.Closing .detail) s.conns c)
    (hconnection : s.connection = some c) (hclosers : s.closers = [.forceCloseInLoop c] ∨ s.closers = [])
    (hdestructor : s.destructorAt = .returned) (hloop : s.loopAt = .closeCallback c ∨ s.loopAt = .removeConnection c)
    (h : s.loop r = some t) : Inv t := by
  rcases hloop with hloop | hloop
  · obtain ⟨v, hv, hclosing⟩ := hconn.1
    simp only [ClientThreads.loop, hloop, hv, hclosing.2.2.1] at h
    cases h
    refine hs.goes_on (by simp [hloop]) ClientLoopAt.noConfusion ?_
    exact .detached c hconn hconnection hclosers (.inr rfl) hdestructor
  · simp only [ClientThreads.loop, hloop] at h
    cases h
    refine hs.goes_on (by simp [hloop]) ClientLoopAt.noConfusion ?_
    exact .gone c (closed_of_closing hconn) hclosers rfl hdestructor

theorem Inv.loop (hs : Inv s) (h : s.loop r = some t) : Inv t := by
  have hbusy : s.loopAt ≠ .idle := by
    intro hidle
    cases (loop_of_idle hidle).symm.trans h
  cases hs.life with
  | none hall hconnection hclosers hloop hdestructor =>
    rcases hdestructor with hdestructor | ⟨hidle, -⟩
    · exact hs.loop_none hall hconnection hclosers hdestructor (hloop.resolve_left hbusy) h
    · exact absurd hidle hbusy
  | made c hconn _ hclosers hloop hdestructor => exact hs.loop_fresh hconn hclosers hdestructor (.inl hloop) h
  | set c hconn hconnection hclosers hloop hdestructor =>
    exact hs.loop_fresh hconn hclosers hdestructor (.inr ⟨hloop, hconnection⟩) h
  | up _ _ _ _ hidle => exact absurd hidle hbusy
  | closing c hconn hconnection hclosers hloop hdestructor =>
    exact hs.loop_closing hconn hclosers hdestructor (.inl ⟨hloop, hconnection⟩) h
  | removed c hconn hconnection hclosers hloop hdestructor =>
    exact hs.loop_closing hconn hclosers hdestructor (.inr ⟨hloop, hconnection⟩) h
  | detached c hconn hconnection hclosers hloop hdestructor =>
    exact hs.loop_detached hconn hconnection hclosers hdestructor hloop h
  | gone _ _ _ hidle => exact absurd hidle hbusy

/-! ## The destructor -/

/-- Until the destructor returns the loop thread is in no call. -/
theorem Inv.idle_of_destructor (hs : Inv s) (hstart : s.destructorAt = .notCalled → s.loopAt = .idle)
    (hreturned : s.destructorAt ≠ .returned) : s.loopAt = .idle := by
  cases hs.life with
  | none _ _ _ _ hdestructor =>
    rcases hdestructor with hdestructor | ⟨hidle, -⟩
    · exact hstart hdestructor
    · exact hidle
  | made _ _ _ _ _ hdestructor => exact hstart hdestructor
  | set _ _ _ _ _ hdestructor => exact hstart hdestructor
  | up _ _ _ _ hidle => exact hidle
  | closing _ _ _ _ _ hdestructor => exact hstart hdestructor
  | removed _ _ _ _ _ hdestructor => exact hstart hdestructor
  | detached _ _ _ _ _ hdestructor => exact absurd hdestructor hreturned
  | gone _ _ _ _ hdestructor => exact absurd hdestructor hreturned

/-- A step of the destructor that keeps the rest of the invariant. -/
theorem Inv.of_destructor (hs : Inv s) (hdangling : t.dangling = s.dangling) (hconnect : t.connector.connect = false)
    (hstate : t.connector.state = s.connector.state) (htimers : t.connector.retryTimers = s.connector.retryTimers)
    (hcount : t.queue.count .startInLoop = s.queue.count .startInLoop) (hloop : t.loopAt = s.loopAt)
    (hconnection : t.connection = s.connection) (hlife : Life t.view) : Inv t := by
  refine ⟨hdangling.trans hs.dangling, fun _ => hconnect, ?_, ?_, hlife⟩
  · intro huse
    rw [InUse, hconnection, hloop] at huse
    exact hstate.trans (hs.inUse huse)
  · refine starts_le hs.starts (Nat.le_of_eq hcount) ?_ (fun heq => hloop.symm.trans heq)
    rw [ClientConnector.active, ClientConnector.active, hstate, htimers]

/-- The destructor of a client without a connection. -/
theorem Inv.destructor_none (hs : Inv s) (hidle : s.loopAt = .idle) (hall : ∀ v ∈ s.conns, v.Closed)
    (hconnection : s.connection = none) (hclosers : s.closers = [])
    (hdestructor : s.destructorAt = .notCalled ∨ FoundNone s.destructorAt) (h : s.destructor = some t) : Inv t := by
  rcases hdestructor with hat | hat | hat | hat | hat
  · simp only [ClientThreads.destructor, hat] at h
    cases h
    refine hs.of_destructor rfl rfl rfl rfl rfl rfl rfl ?_
    exact .none hall hconnection hclosers (.inl hidle) (.inr ⟨hidle, .inl rfl⟩)
  · have hconnect := hs.stopped (by simp [hat])
    simp only [ClientThreads.destructor, hat] at h
    cases h
    refine hs.of_destructor rfl hconnect rfl rfl (by simp [queueInLoop]) rfl rfl ?_
    refine .none hall hconnection ?_ (.inl hidle) (.inr ⟨hidle, .inr (.inl rfl)⟩)
    simp [view, queueInLoop, closers, ClientFunctor.isClose] at hclosers ⊢
    exact hclosers
  · have hconnect := hs.stopped (by simp [hat])
    simp only [ClientThreads.destructor, hat, hconnection] at h
    cases h
    refine hs.of_destructor rfl hconnect rfl rfl rfl rfl hconnection.symm ?_
    exact .none hall rfl hclosers (.inl hidle) (.inr ⟨hidle, .inr (.inr (.inl rfl))⟩)
  · have hconnect := hs.stopped (by simp [hat])
    simp only [ClientThreads.destructor, hat] at h
    cases h
    refine hs.of_destructor rfl hconnect rfl rfl rfl rfl rfl ?_
    exact .none hall hconnection hclosers (.inl hidle) (.inr ⟨hidle, .inr (.inr (.inr rfl))⟩)
  · simp only [ClientThreads.destructor, hat] at h
    cases h

/-- In `forceClose`, whether the close callback is replaced already or not. -/
theorem Inv.destructor_forceClose {target : CloseTarget} (hs : Inv s) (hidle : s.loopAt = .idle)
    (hconn : Apart ClientConn.Closed (ClientConn.Up target) s.conns c) (hconnection : s.connection = some c)
    (hin : InForceClose c s.destructorAt) (hpending : ∀ d, InForceClose c d → Pending c d s.closers target)
    (hreturned : Pending c .returned (s.closers ++ [.forceCloseInLoop c]) target) (h : s.destructor = some t) :
    Inv t := by
  rcases hin with hat | hat | hat
  · have hconnect := hs.stopped (by simp [hat])
    obtain ⟨v, hv, hup⟩ := hconn.1
    simp only [ClientThreads.destructor, hat, hv, Option.any_some, hup.1, if_true] at h
    cases h
    refine hs.of_destructor rfl hconnect rfl rfl rfl rfl rfl (.up c target hconn hconnection hidle ?_)
    exact hpending _ (.inr (.inl rfl))
  · have hconnect := hs.stopped (by simp [hat])
    simp only [ClientThreads.destructor, hat] at h
    cases h
    refine hs.of_destructor rfl hconnect rfl rfl rfl rfl rfl (.up c target (hconn.modify ?_) hconnection hidle ?_)
    · intro v hv
      exact ⟨by simp [ClientConn.isUp], hv.2⟩
    · exact hpending _ (.inr (.inr rfl))
  · have hconnect := hs.stopped (by simp [hat])
    simp only [ClientThreads.destructor, hat] at h
    cases h
    refine hs.of_destructor rfl hconnect rfl rfl (by simp [queueInLoop]) rfl rfl (.up c target hconn hconnection hidle ?_)
    show Pending c .returned (closers { s with queue := s.queue ++ [.forceCloseInLoop c] }) target
    rw [closers_append]
    exact hreturned

/-- The destructor of a client whose connection is up. -/
theorem Inv.destructor_up {target : CloseTarget} (hs : Inv s) (hidle : s.loopAt = .idle)
    (hconn : Apart ClientConn.Closed (ClientConn.Up target) s.conns c) (hconnection : s.connection = some c)
    (hpending : Pending c s.destructorAt s.closers target) (h : s.destructor = some t) : Inv t := by
  have hconnect : ∀ d, s.destructorAt = d → d ≠ .notCalled → s.connector.connect = false := by
    rintro d rfl hcalled
    exact hs.stopped hcalled
  generalize hat : s.destructorAt = d at hpending
  generalize hclosers : s.closers = fs at hpending
  cases hpending with
  | notCalled =>
    simp only [ClientThreads.destructor, hat] at h
    cases h
    refine hs.of_destructor rfl rfl rfl rfl rfl rfl rfl (.up c .client hconn hconnection hidle ?_)
    show Pending c .queueStop s.closers .client
    rw [hclosers]
    exact .queueStop
  | queueStop =>
    have hconnect := hconnect _ hat DestructorAt.noConfusion
    simp only [ClientThreads.destructor, hat] at h
    cases h
    refine hs.of_destructor rfl hconnect rfl rfl (by simp [queueInLoop]) rfl rfl (.up c .client hconn hconnection hidle ?_)
    show Pending c .readConnection (closers { s with queue := s.queue ++ [.stopInLoop] }) .client
    rw [closers_append, hclosers]
    exact .readConnection
  | readConnection =>
    have hconnect := hconnect _ hat DestructorAt.noConfusion
    simp only [ClientThreads.destructor, hat, hconnection] at h
    cases h
    refine hs.of_destructor rfl hconnect rfl rfl rfl rfl hconnection.symm (.up c .client hconn rfl hidle ?_)
    show Pending c (.queueSetCloseCallback c) s.closers .client
    rw [hclosers]
    exact .queueSetCloseCallback
  | queueSetCloseCallback =>
    have hconnect := hconnect _ hat DestructorAt.noConfusion
    simp only [ClientThreads.destructor, hat] at h
    cases h
    refine hs.of_destructor rfl hconnect rfl rfl (by simp [queueInLoop]) rfl rfl (.up c .client hconn hconnection hidle ?_)
    show Pending c (.testState c) (closers { s with queue := s.queue ++ [.setCloseCallback c] }) .client
    rw [closers_append, hclosers]
    exact .queued (.inl rfl)
  | queued hd =>
    refine hs.destructor_forceClose hidle hconn hconnection (hat ▸ hd) ?_ ?_ h
    · rw [hclosers]
      exact fun _ hd => .queued hd
    · rw [hclosers]
      exact .returned
  | replaced hd =>
    refine hs.destructor_forceClose hidle hconn hconnection (hat ▸ hd) ?_ ?_ h
    · rw [hclosers]
      exact fun _ hd => .replaced hd
    · rw [hclosers]
      exact .returnedReplaced
  | returned =>
    simp only [ClientThreads.destructor, hat] at h
    cases h
  | returnedReplaced =>
    simp only [ClientThreads.destructor, hat] at h
    cases h

theorem Inv.destructor (hs : Inv s) (hstart : s.destructorAt = .notCalled → s.loopAt = .idle)
    (h : s.destructor = some t) : Inv t := by
  have hreturned : s.destructorAt ≠ .returned := by
    intro hat
    simp [ClientThreads.destructor, hat] at h
  have hidle := hs.idle_of_destructor hstart hreturned
  rcases hs.of_idle hidle with ⟨hall, hconnection, hclosers, hdestructor⟩ | ⟨c, target, hconn, hconnection, hpending⟩ |
    ⟨_, _, _, hdestructor⟩
  · exact hs.destructor_none hidle hall hconnection hclosers hdestructor h
  · exact hs.destructor_up hidle hconn hconnection hpending h
  · exact absurd hdestructor hreturned

/-! ## Every run -/

/-- The destructor starts while the loop thread is in no call, and a close is handled before it, or when it has returned
and its functor has replaced the close callback. -/
def Quietly (s : ClientThreads) : Event → Prop
  | .destructor => s.destructorAt = .notCalled → s.loopAt = .idle
  | .close c => s.destructorAt = .notCalled ∨ s.destructorAt = .returned ∧ .setCloseCallback c ∉ s.queue
  | _ => True

instance (s : ClientThreads) (e : Event) : Decidable (Quietly s e) := by
  cases e <;> unfold Quietly <;> infer_instance

theorem Inv.init : Inv {} where
  dangling := rfl
  stopped := fun hcalled => absurd rfl hcalled
  inUse := by
    rintro (hsome | ⟨hne, -⟩)
    · exact absurd rfl hsome
    · exact absurd rfl hne
  starts := Nat.zero_le 1
  life := .none (fun v hv => by cases hv) rfl rfl (.inl rfl) (.inl rfl)

theorem Inv.step {e : Event} (hs : Inv s) (hquiet : Quietly s e) (h : s.step e = some t) : Inv t := by
  cases e with
  | connect =>
    simp only [ClientThreads.step, Option.ite_none_right_eq_some, Option.some.injEq] at h
    obtain ⟨⟨hdestructor, hstarted⟩, rfl⟩ := h
    exact hs.connect hdestructor hstarted
  | enableRetry =>
    simp only [ClientThreads.step, Option.ite_none_right_eq_some, Option.some.injEq] at h
    obtain ⟨-, rfl⟩ := h
    exact hs.of_view rfl rfl (fun _ hstopped => hstopped) (fun hconnected => hconnected) hs.starts
  | disconnect =>
    simp only [ClientThreads.step, Option.ite_none_right_eq_some, Option.some.injEq] at h
    obtain ⟨hdestructor, rfl⟩ := h
    exact hs.disconnect hdestructor
  | stop =>
    simp only [ClientThreads.step, Option.ite_none_right_eq_some, Option.some.injEq] at h
    obtain ⟨-, rfl⟩ := h
    exact hs.stop
  | destructor => exact hs.destructor hquiet h
  | handleWrite connected =>
    simp only [ClientThreads.step, Option.ite_none_right_eq_some, Option.some.injEq] at h
    obtain ⟨⟨hidle, -, hstate⟩, rfl⟩ := h
    exact hs.handleWrite hidle hstate
  | handleError =>
    simp only [ClientThreads.step, Option.ite_none_right_eq_some, Option.some.injEq] at h
    obtain ⟨⟨-, -, hstate⟩, rfl⟩ := h
    exact hs.handleError hstate
  | retryTimer r =>
    simp only [ClientThreads.step, Option.ite_none_right_eq_some] at h
    obtain ⟨⟨hidle, htimers⟩, h⟩ := h
    exact hs.retryTimer hidle htimers h
  | keepTimer =>
    simp only [ClientThreads.step, Option.ite_none_right_eq_some, Option.some.injEq] at h
    obtain ⟨-, rfl⟩ := h
    exact hs.of_view rfl rfl (fun _ hstopped => hstopped) (fun hconnected => hconnected) hs.starts
  | close c =>
    simp only [ClientThreads.step, Option.ite_none_right_eq_some, Option.some.injEq] at h
    obtain ⟨⟨hidle, hup⟩, rfl⟩ := h
    exact hs.close hidle hup hquiet
  | functor r =>
    simp only [ClientThreads.step, Option.ite_none_right_eq_some] at h
    obtain ⟨hidle, h⟩ := h
    split at h
    · cases h
    · rename_i f rest hqueue
      exact hs.functor hidle hqueue h
  | loop r => exact hs.loop h

/-! ## What the loop thread has left to do -/

/-- The steps that the call has left. -/
def loopLeft : ClientLoopAt → Nat
  | .closeCallback _ => 2
  | .removeConnection _ => 1
  | _ => 0

/-- A functor takes at most three steps, and `stopInLoop` may queue another one. -/
def left (s : ClientThreads) : Nat := 3 * s.queue.length + s.queue.count .stopInLoop + loopLeft s.loopAt

/-- The loop thread does what is left, with whatever result of `connect`. -/
def IsLoop (e : Event) : Prop := e = .functor .close ∨ e = .loop .close

theorem left_lt_of_pop {f : ClientFunctor} {rest : List ClientFunctor} (hqueue : s.queue = f :: rest)
    (hrest : t.queue = rest) (hloop : loopLeft t.loopAt ≤ 2) : t.left < s.left := by
  have hcount : rest.count .stopInLoop ≤ (f :: rest).count .stopInLoop := List.count_le_count_cons
  simp only [left, hqueue, hrest, List.length_cons]
  omega

theorem Inv.functor_enabled {f : ClientFunctor} {rest : List ClientFunctor} (hs : Inv s) (hidle : s.loopAt = .idle)
    (hqueue : s.queue = f :: rest) (hdestructor : s.destructorAt = .returned) :
    ∃ t, ClientThreads.functor f .close { s with queue := rest } = some t ∧ t.destructorAt = .returned ∧
      t.left < s.left := by
  have hloop : loopLeft s.loopAt ≤ 2 := by simp [hidle, loopLeft]
  cases f with
  | startInLoop =>
    -- The assert of `startInLoop` holds: nothing else has started the connector.
    have hstarts := hs.starts
    rw [ClientThreads.starts, hqueue, List.count_cons_self] at hstarts
    have hstate : s.connector.state = .kDisconnected := by
      by_contra hne
      rw [ClientConnector.active, if_neg hne] at hstarts
      omega
    have hconnect := hs.stopped (by simp [hdestructor])
    refine ⟨{ s with queue := rest }, ?_, hdestructor, left_lt_of_pop hqueue rfl hloop⟩
    simp [ClientThreads.functor, ClientThreads.startInLoop, ClientConnector.startInLoop, hstate, hconnect]
  | stopInLoop =>
    refine ⟨_, rfl, ?_, ?_⟩
    · unfold ClientThreads.stopInLoop
      split <;> exact hdestructor
    · unfold ClientThreads.stopInLoop
      split
      · simp only [ClientThreads.left, queueInLoop, hqueue, List.length_cons, List.length_append, List.length_nil,
          List.count_append, List.count_cons_self, List.count_singleton]
        have hreset : (ClientFunctor.resetChannel == .stopInLoop) = false := rfl
        rw [hreset]
        simp
      · exact left_lt_of_pop hqueue rfl hloop
  | resetChannel => exact ⟨_, rfl, hdestructor, left_lt_of_pop hqueue rfl hloop⟩
  | setCloseCallback c => exact ⟨_, rfl, hdestructor, left_lt_of_pop hqueue rfl hloop⟩
  | forceCloseInLoop c =>
    refine ⟨_, rfl, ?_, ?_⟩
    · split <;> exact hdestructor
    · split
      · exact left_lt_of_pop hqueue rfl (Nat.le_refl 2)
      · exact left_lt_of_pop hqueue rfl hloop

theorem Inv.loop_enabled (hs : Inv s) (hbusy : s.loopAt ≠ .idle) (hdestructor : s.destructorAt = .returned) :
    ∃ t, s.loop .close = some t ∧ t.destructorAt = .returned ∧ t.left < s.left := by
  cases hs.life with
  | none _ _ _ _ hat =>
    rcases hat with hat | ⟨hidle, -⟩
    · cases hdestructor.symm.trans hat
    · exact absurd hidle hbusy
  | made _ _ _ _ _ hat => cases hdestructor.symm.trans hat
  | set _ _ _ _ _ hat => cases hdestructor.symm.trans hat
  | up _ _ _ _ hidle => exact absurd hidle hbusy
  | closing _ _ _ _ _ hat => cases hdestructor.symm.trans hat
  | removed _ _ _ _ _ hat => cases hdestructor.symm.trans hat
  | detached c hconn _ _ hloop =>
    obtain ⟨v, hv, hclosing⟩ := hconn.1
    have hv : s.conns[c]? = some v := hv
    rcases hloop with hloop | hloop
    · have hloop : s.loopAt = .closeCallback c := hloop
      refine ⟨s.goTo (.removeConnection c), ?_, hdestructor, ?_⟩
      · simp [ClientThreads.loop, hloop, hv, hclosing.2.2.1]
      · simp [ClientThreads.left, goTo, hloop, loopLeft]
    · have hloop : s.loopAt = .removeConnection c := hloop
      refine ⟨(s.connectDestroyed c).goTo .idle, ?_, hdestructor, ?_⟩
      · simp [ClientThreads.loop, hloop]
      · simp [ClientThreads.left, goTo, connectDestroyed, modifyConn, hloop, loopLeft]
  | gone _ _ _ hidle => exact absurd hidle hbusy

/-- After the destructor the loop thread gets to the end of its work. -/
theorem Inv.settles (hs : Inv s) (hdestructor : s.destructorAt = .returned) :
    ∃ es t, (∀ e ∈ es, IsLoop e) ∧ system.Run Quietly s es t ∧ t.loopAt = .idle ∧ t.queue = [] := by
  induction hn : s.left using Nat.strongRecOn generalizing s with
  | ind n ih =>
    have hstep : ∀ {e : Event} {u : ClientThreads}, IsLoop e → Quietly s e → s.step e = some u →
        u.destructorAt = .returned → u.left < s.left →
        ∃ es t, (∀ e ∈ es, IsLoop e) ∧ system.Run Quietly s es t ∧ t.loopAt = .idle ∧ t.queue = [] := by
      intro e u he hquiet hu hreturned hleft
      obtain ⟨es, t, hes, hrun, hdone⟩ := ih u.left (hn ▸ hleft) (hs.step hquiet hu) hreturned rfl
      exact ⟨e :: es, t, List.forall_mem_cons.mpr ⟨he, hes⟩, .cons hquiet hu hrun, hdone⟩
    by_cases hidle : s.loopAt = .idle
    · cases hqueue : s.queue with
      | nil =>
        refine ⟨[], s, ?_, .nil s, hidle, hqueue⟩
        intro e he
        cases he
      | cons f rest =>
        obtain ⟨u, hu, hreturned, hleft⟩ := hs.functor_enabled hidle hqueue hdestructor
        refine hstep (.inl rfl) trivial ?_ hreturned hleft
        simpa [ClientThreads.step, hidle, hqueue] using hu
    · obtain ⟨u, hu, hreturned, hleft⟩ := hs.loop_enabled hidle hdestructor
      exact hstep (.inr rfl) trivial hu hreturned hleft

/-! ## The result -/

theorem Inv.destroyed_le (hs : Inv s) : ∀ v ∈ s.conns, v.destroyed ≤ 1 := by
  have hclosed : ∀ v : ClientConn, v.Closed → v.destroyed ≤ 1 := fun v hv => Nat.le_of_eq hv.2.2
  have hapart : ∀ {one : ClientConn → Prop} {c : Nat}, Apart ClientConn.Closed one s.conns c →
      (∀ v, one v → v.destroyed = 0) → ∀ v ∈ s.conns, v.destroyed ≤ 1 := by
    intro one c hconn hone
    have hle : Apart (fun v => v.destroyed ≤ 1) one s.conns c := ⟨hconn.1, fun j x hj hx => hclosed x (hconn.2 j x hj hx)⟩
    refine hle.forall_mem ?_
    intro v hv
    rw [hone v hv]
    exact Nat.zero_le 1
  cases hs.life with
  | none hall => exact fun v hv => hclosed v (hall v hv)
  | made c hconn => exact hapart hconn fun v hv => hv.2.2.2
  | set c hconn => exact hapart hconn fun v hv => hv.2.2.2
  | up c target hconn => exact hapart hconn fun v hv => hv.2.2.2
  | closing c hconn => exact hapart hconn fun v hv => hv.2.2.2
  | removed c hconn => exact hapart hconn fun v hv => hv.2.2.2
  | detached c hconn => exact hapart hconn fun v hv => hv.2.2.2
  | gone c hall => exact fun v hv => hclosed v (hall v hv)

theorem Inv.destroyed_eq (hs : Inv s) (hdestructor : s.destructorAt = .returned) (hidle : s.loopAt = .idle)
    (hqueue : s.queue = []) : ∀ v ∈ s.conns, v.destroyed = 1 := by
  have hclosers : s.closers = [] := by simp [closers, hqueue]
  rcases hs.of_idle hidle with ⟨hall, -⟩ | ⟨c, target, -, -, hpending⟩ | ⟨_, hall, -⟩
  · exact fun v hv => (hall v hv).2.2
  · rw [hdestructor, hclosers] at hpending
    rcases hpending.of_returned with ⟨hnone, -⟩ | ⟨hnone, -⟩ <;> cases hnone
  · exact fun v hv => (hall v hv).2.2

/-- The loop thread never calls the destroyed client, and when it has nothing left to do, which it comes to after the
destructor, `connectDestroyed` has run exactly once for every connection. -/
theorem client_destruction {es : List Event} (hrun : system.Run Quietly {} es s) :
    s.dangling = [] ∧ (∀ v ∈ s.conns, v.destroyed ≤ 1) ∧ (s.destructorAt = .returned →
      (s.loopAt = .idle → s.queue = [] → ∀ v ∈ s.conns, v.destroyed = 1) ∧
      ∃ es' t, (∀ e ∈ es', IsLoop e) ∧ system.Run Quietly s es' t ∧ t.loopAt = .idle ∧ t.queue = []) := by
  have hs : Inv s := hrun.invariant (fun hs hquiet h => hs.step hquiet h) .init
  refine ⟨hs.dangling, hs.destroyed_le, ?_⟩
  intro hdestructor
  exact ⟨hs.destroyed_eq hdestructor, hs.settles hdestructor⟩

/-- A client that is connected. -/
def connected : List Event :=
  [.connect, .functor .connecting, .handleWrite true, .loop .close, .loop .close, .loop .close, .functor .close]

/-- It is destroyed, and then the functors of the destructor run. -/
def destroyedWhenConnected : List Event :=
  connected ++ List.replicate 7 .destructor ++
    [.functor .close, .functor .close, .functor .close, .loop .close, .loop .close]

theorem destroyed_when_connected :
    ∃ s, system.Run Quietly {} destroyedWhenConnected s ∧ s.destructorAt = .returned ∧ s.conns.length = 1 ∧
      s.loopAt = .idle ∧ s.queue = [] ∧ s.dangling = [] ∧ ∀ v ∈ s.conns, v.destroyed = 1 := by
  obtain ⟨s, hrun, hdestructor, hconns, hidle, hqueue⟩ : ∃ s, system.Run Quietly {} destroyedWhenConnected s ∧
      s.destructorAt = .returned ∧ s.conns.length = 1 ∧ s.loopAt = .idle ∧ s.queue = [] := by
    refine Stepper.Run.replay rfl ?_
    intro _
    exact ⟨rfl, rfl, rfl, rfl⟩
  obtain ⟨hdangling, -, hreturned⟩ := client_destruction hrun
  exact ⟨s, hrun, hdestructor, hconns, hidle, hqueue, hdangling, (hreturned hdestructor).1 hidle hqueue⟩

/-- EOF comes before the functors of the destructor. -/
def closedAfterReturn : List Event := connected ++ List.replicate 7 .destructor ++ [.close 0, .loop .close]

/-- `handleWrite` has seen `connect_` when the destructor starts. -/
def connectedAfterReturn : List Event :=
  [.connect, .functor .connecting, .handleWrite true] ++ List.replicate 4 .destructor ++ [.loop .close]

/-- EOF comes between the test and the store of `forceClose`. -/
def closedInForceClose : List Event :=
  connected ++ List.replicate 5 .destructor ++
    [.close 0, .loop .close, .loop .close, .loop .close, .loop .close, .destructor, .destructor, .functor .close,
      .functor .close, .functor .close, .loop .close, .loop .close]

theorem called_after_destructor :
    (∃ s, system.Run (fun _ _ => True) {} closedAfterReturn s ∧ s.dangling = [.removeConnection 0]) ∧
    (∃ s, system.Run (fun _ _ => True) {} connectedAfterReturn s ∧ s.dangling = [.newConnection]) ∧
    ∃ s, system.Run (fun _ _ => True) {} closedInForceClose s ∧ s.conns.map (·.destroyed) = [2] := by
  refine ⟨?_, ?_, ?_⟩
  · refine Stepper.Run.replay rfl ?_
    intro _
    rfl
  · refine Stepper.Run.replay rfl ?_
    intro _
    rfl
  · refine Stepper.Run.replay rfl ?_
    intro _
    rfl

end ClientThreads
end Muduo
