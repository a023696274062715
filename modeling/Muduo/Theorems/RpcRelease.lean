import Muduo.Lib.Ownership
import Muduo.Lib.Threads
import Muduo.RpcServer

/-! # What an RPC server releases

A connection and its channel hold each other from the first call of `onConnection` on: the second one resets the context
of the connection, not its message callback. So no connection is released. -/

namespace Muduo
open Lib

namespace TcpServer
variable {k : Nat} {s : TcpServer k} {c : Nat} {v : ServerConn k} {l : LoopId k} {f : ServerFunctor}

/-- `connectEstablished` is queued for the connection. -/
def Awaiting (s : TcpServer k) (c : Nat) : Prop := ∃ l, .connectEstablished c ∈ s.queues l

theorem Awaiting.queueInLoop (h : s.Awaiting c) : (s.queueInLoop l f).Awaiting c := by
  obtain ⟨l', hmem⟩ := h
  refine ⟨l', ?_⟩
  by_cases hl : l' = l
  · subst hl
    simp [TcpServer.queueInLoop, hmem]
  · simpa [TcpServer.queueInLoop, hl] using hmem

/-- Only the functor that is taken out may be the awaited one. -/
theorem Awaiting.pop {rest : List ServerFunctor} (h : s.Awaiting c) (hqueue : s.queues l = f :: rest) :
    f = .connectEstablished c ∨ Awaiting { s with queues := Function.update s.queues l rest } c := by
  obtain ⟨l', hmem⟩ := h
  by_cases hl : l' = l
  · subst hl
    rw [hqueue] at hmem
    rcases List.mem_cons.mp hmem with heq | hmem
    · exact .inl heq.symm
    · exact .inr ⟨l', by simpa using hmem⟩
  · exact .inr ⟨l', by simpa [hl] using hmem⟩

@[simp] theorem queues_called : (s.called c).queues = s.queues := by
  unfold called
  split <;> rfl

@[simp] theorem accepted_called : (s.called c).accepted = s.accepted := by
  unfold called
  split <;> rfl

theorem Awaiting.called {c' : Nat} (h : s.Awaiting c) : (s.called c').Awaiting c := by
  simpa [Awaiting] using h

theorem Awaiting.removeConnectionInLoop {c' : Nat} (h : s.Awaiting c) : (s.removeConnectionInLoop c' v).Awaiting c :=
  Awaiting.queueInLoop (show Awaiting (TcpServer.modifyConn _ _ _) c from h.called)

theorem Awaiting.functor (h : s.Awaiting c) : (s.functor l f).Awaiting c := by
  cases f with
  | connectEstablished c' => exact h
  | removeConnectionInLoop c' =>
    unfold TcpServer.functor
    split
    · rename_i heq
      cases heq
    · split
      · exact h
      · exact h.removeConnectionInLoop
    · exact h
  | connectDestroyed c' => exact h

theorem Awaiting.removeConnection {c' : Nat} (h : s.Awaiting c) : (s.removeConnection c' v).Awaiting c := by
  unfold TcpServer.removeConnection
  split
  · exact h.called.removeConnectionInLoop
  · exact h.called.queueInLoop

@[simp] theorem length_removeConnectionInLoop :
    (s.removeConnectionInLoop c v).accepted.length = s.accepted.length := by
  simp [removeConnectionInLoop, queueInLoop, modifyConn]

@[simp] theorem length_removeConnection : (s.removeConnection c v).accepted.length = s.accepted.length := by
  unfold removeConnection
  split
  · simp
  · simp [queueInLoop]

@[simp] theorem length_functor : (s.functor l f).accepted.length = s.accepted.length := by
  cases f with
  | connectEstablished c' => simp [functor, connectEstablished, modifyConn]
  | removeConnectionInLoop c' =>
    simp only [functor]
    split
    · rfl
    · simp
  | connectDestroyed c' => simp [functor, connectDestroyed, modifyConn]

theorem state_connectEstablished (hc : c < s.accepted.length) :
    ∃ v, (s.connectEstablished c l).accepted[c]? = some v ∧ v.state = .kConnected := by
  refine ⟨{ s.accepted[c] with state := .kConnected }, ?_, rfl⟩
  simp [connectEstablished, modifyConn, List.getElem?_eq_getElem hc]

section
variable {t : TcpServer k} {rest : List ServerFunctor} (hqueue : s.queues l = f :: rest)
  (h : s.step (.functor l) = some t)
include hqueue h

theorem functor_of_step : t = TcpServer.functor l f { s with queues := Function.update s.queues l rest } := by
  obtain ⟨_, _, hhead, -, rfl⟩ := of_functor h
  cases hqueue.symm.trans hhead
  rfl

theorem length_of_functor : t.accepted.length = s.accepted.length := by
  rw [functor_of_step hqueue h, length_functor]

theorem Awaiting.of_functor (hc : s.Awaiting c) : f = .connectEstablished c ∨ t.Awaiting c := by
  rw [functor_of_step hqueue h]
  exact (hc.pop hqueue).imp_right fun hc => hc.functor

end

end TcpServer

inductive RpcObject where
  | conn (c : Nat)
  | channel (c : Nat)

namespace RpcServer
variable {k : Nat} {s : RpcServer k} {t : TcpServer k} {c : Nat} {w : RpcConn}

/-! ## Reference counting -/

def root (s : RpcServer k) : RpcObject → Prop
  | .conn c => s.held c ≠ []
  | .channel _ => False

def holds (s : RpcServer k) : RpcObject → RpcObject → Prop
  | .conn c, .channel c' => c = c' ∧ ∃ w, s.conns[c]? = some w ∧ w.channelRefs ≠ []
  | .channel c, .conn c' => c = c' ∧ ∃ w, s.conns[c]? = some w ∧ w.channel = true
  | _, _ => False

/-- A connection and its channel that hold each other are kept. -/
theorem kept_of_cycle (hw : s.conns[c]? = some w) (hchannel : w.channel = true) (hrefs : w.channelRefs ≠ []) :
    ¬ Released s.root s.holds (.conn c) ∧ ¬ Released s.root s.holds (.channel c) := by
  have hgroup : ∀ y, y = .conn c ∨ y = .channel c → s.root y ∨ ∃ x, (x = .conn c ∨ x = .channel c) ∧ s.holds x y := by
    rintro y (rfl | rfl)
    · exact .inr ⟨.channel c, .inr rfl, rfl, w, hw, hchannel⟩
    · exact .inr ⟨.conn c, .inl rfl, rfl, w, hw, hrefs⟩
  exact ⟨Released.kept hgroup (.inl rfl), Released.kept hgroup (.inr rfl)⟩

theorem released_channel (hw : s.conns[c]? = some w) (hrefs : w.channelRefs = []) :
    Released s.root s.holds (.channel c) := by
  refine .of_unheld (fun hroot => hroot) ?_
  rintro (c' | c') hholds
  · obtain ⟨rfl, w', hw', hrefs'⟩ := hholds
    obtain rfl := Option.some.inj (hw.symm.trans hw')
    exact hrefs' hrefs
  · exact hholds

theorem released_conn (hw : s.conns[c]? = some w) (hheld : s.held c = [])
    (hchannel : w.channel = true → w.channelRefs = []) : Released s.root s.holds (.conn c) := by
  refine .mk (fun hroot => hroot hheld) ?_
  rintro (c' | c') hholds
  · exact hholds.elim
  · obtain ⟨rfl, w', hw', hmade⟩ := hholds
    obtain rfl := Option.some.inj (hw.symm.trans hw')
    exact released_channel hw (hchannel hmade)

/-- `settle` destroys the connections that reference counting releases. -/
theorem isOpen_settle (hw : s.conns[c]? = some w) (hopen : w.isOpen = true) :
    (w.settle (s.held c)).isOpen = true ↔ ¬ Released s.root s.holds (.conn c) := by
  by_cases hrefs : w.channelRefs = []
  · by_cases hheld : s.held c = []
    · have hreleased := released_conn hw hheld fun _ => hrefs
      simp [RpcConn.settle, hrefs, hheld, hreleased]
    · have hkept : ¬ Released s.root s.holds (.conn c) := Released.kept_of_root hheld
      simp [RpcConn.settle, hrefs, hheld, hkept, hopen]
  · by_cases hchannel : w.channel = true
    · have hkept := (kept_of_cycle hw hchannel hrefs).1
      simp [RpcConn.settle, hrefs, hchannel, hkept, hopen]
    · by_cases hheld : s.held c = []
      · have hreleased := released_conn hw hheld fun hmade => absurd hmade hchannel
        simp [RpcConn.settle, hrefs, hheld, hchannel, hreleased]
      · have hkept : ¬ Released s.root s.holds (.conn c) := Released.kept_of_root hheld
        simp [RpcConn.settle, hrefs, hheld, hkept, hopen]

/-- And the channels. -/
theorem channel_settle (hw : s.conns[c]? = some w) (hchannel : w.channel = true) :
    (w.settle (s.held c)).channel = true ↔ ¬ Released s.root s.holds (.channel c) := by
  by_cases hrefs : w.channelRefs = []
  · have hreleased := released_channel hw hrefs
    by_cases hheld : s.held c = []
    · simp [RpcConn.settle, hrefs, hheld, hreleased]
    · simp [RpcConn.settle, hrefs, hheld, hreleased]
  · have hkept := (kept_of_cycle hw hchannel hrefs).2
    simp [RpcConn.settle, hrefs, hchannel, hkept]

/-! ## What is kept -/

theorem held_of_awaiting (h : s.server.Awaiting c) : s.held c ≠ [] := by
  obtain ⟨l, hmem⟩ := h
  have hl : l ∈ loops k := by
    cases l with
    | none => exact List.mem_cons_self
    | some i => exact List.mem_cons_of_mem _ (List.mem_map.mpr ⟨i, List.mem_finRange i, rfl⟩)
  refine List.ne_nil_of_mem (a := .functor l (.connectEstablished c)) ?_
  refine List.mem_append_right _ (List.mem_flatMap.mpr ⟨l, hl, ?_⟩)
  refine List.mem_append_left _ (List.mem_append_left _ (List.mem_map.mpr ⟨_, ?_, rfl⟩))
  exact List.mem_filter.mpr ⟨hmem, decide_eq_true rfl⟩

/-- The connection and its channel hold each other. -/
def Cyclic (w : RpcConn) : Prop := w.messageCallback = .channel ∧ w.channel = true

theorem Cyclic.channelRefs (h : Cyclic w) (hopen : w.isOpen = true) : w.channelRefs ≠ [] := by
  simp [RpcConn.channelRefs, hopen, h.1]

/-- All connections are open, and each waits for `connectEstablished` or is held by its channel. -/
structure Kept (s : RpcServer k) : Prop where
  length : s.conns.length = s.server.accepted.length
  isOpen : ∀ (c : Nat) (w : RpcConn), s.conns[c]? = some w → w.isOpen = true
  held : ∀ (c : Nat) (w : RpcConn), s.conns[c]? = some w → s.server.Awaiting c ∨ Cyclic w

theorem messageCallback_settle {held : List (ConnRef k)} : (w.settle held).messageCallback = w.messageCallback := by
  simp only [RpcConn.settle]
  split <;> split <;> rfl

theorem Kept.settle (hs : Kept s) : Kept s.settle := by
  have hlookup : ∀ (c : Nat) (w' : RpcConn), s.settle.conns[c]? = some w' →
      ∃ w, s.conns[c]? = some w ∧ w' = w.settle (s.held c) := by
    intro c w' hw'
    simp only [RpcServer.settle, List.getElem?_mapIdx, Option.map_eq_some_iff] at hw'
    obtain ⟨w, hw, rfl⟩ := hw'
    exact ⟨w, hw, rfl⟩
  refine ⟨by simp [RpcServer.settle, hs.length], ?_, ?_⟩
  · intro c w' hw'
    obtain ⟨w, hw, rfl⟩ := hlookup c w' hw'
    have hopen := hs.isOpen c w hw
    rw [isOpen_settle hw hopen]
    rcases hs.held c w hw with hawaiting | hcyclic
    · exact Released.kept_of_root (held_of_awaiting hawaiting)
    · exact (kept_of_cycle hw hcyclic.2 (hcyclic.channelRefs hopen)).1
  · intro c w' hw'
    obtain ⟨w, hw, rfl⟩ := hlookup c w' hw'
    have hopen := hs.isOpen c w hw
    rcases hs.held c w hw with hawaiting | hcyclic
    · exact .inl hawaiting
    · refine .inr ⟨messageCallback_settle.trans hcyclic.1, ?_⟩
      rw [channel_settle hw hcyclic.2]
      exact (kept_of_cycle hw hcyclic.2 (hcyclic.channelRefs hopen)).2

theorem Kept.server (hs : Kept s) (hlength : t.accepted.length = s.server.accepted.length)
    (hawaiting : ∀ c, s.server.Awaiting c → t.Awaiting c) : Kept { s with server := t } where
  length := hs.length.trans hlength.symm
  isOpen := hs.isOpen
  held := fun c w hw => (hs.held c w hw).imp_left (hawaiting c)

theorem kept_modifyConn {f : RpcConn → RpcConn} (hlength : s.conns.length = s.server.accepted.length)
    (hopen : ∀ (c : Nat) (w : RpcConn), s.conns[c]? = some w → w.isOpen = true) (hf : ∀ w, (f w).isOpen = w.isOpen)
    (hheld : ∀ w, s.conns[c]? = some w → s.server.Awaiting c ∨ Cyclic (f w))
    (hothers : ∀ (c' : Nat) (w : RpcConn), c' ≠ c → s.conns[c']? = some w → s.server.Awaiting c' ∨ Cyclic w) :
    Kept (s.modifyConn c f) := by
  have hlookup : ∀ (c' : Nat) (w' : RpcConn), (s.modifyConn c f).conns[c']? = some w' →
      ∃ w, s.conns[c']? = some w ∧ (c' = c ∧ w' = f w ∨ c' ≠ c ∧ w' = w) := by
    intro c' w' hw'
    simp only [modifyConn, List.getElem?_modify, Option.map_eq_map, Option.map_eq_some_iff] at hw'
    obtain ⟨w, hw, rfl⟩ := hw'
    refine ⟨w, hw, ?_⟩
    by_cases hc : c = c'
    · exact .inl ⟨hc.symm, if_pos hc⟩
    · exact .inr ⟨Ne.symm hc, if_neg hc⟩
  refine ⟨by simpa [modifyConn] using hlength, ?_, ?_⟩
  · intro c' w' hw'
    obtain ⟨w, hw, ⟨-, rfl⟩ | ⟨-, rfl⟩⟩ := hlookup c' w' hw'
    · exact (hf w).trans (hopen c' w hw)
    · exact hopen c' w' hw
  · intro c' w' hw'
    obtain ⟨w, hw, ⟨rfl, rfl⟩ | ⟨hc, rfl⟩⟩ := hlookup c' w' hw'
    · exact hheld w hw
    · exact hothers c' w' hc hw

/-- `onConnection` gives a connection that goes up its channel. -/
theorem kept_onConnection (hlength : s.conns.length = s.server.accepted.length)
    (hopen : ∀ (c : Nat) (w : RpcConn), s.conns[c]? = some w → w.isOpen = true)
    (hup : c < s.server.accepted.length → s.connected c = true)
    (hothers : ∀ (c' : Nat) (w : RpcConn), c' ≠ c → s.conns[c']? = some w → s.server.Awaiting c' ∨ Cyclic w) :
    Kept (s.onConnection c) := by
  unfold RpcServer.onConnection
  split
  · exact kept_modifyConn hlength hopen (fun _ => rfl) (fun _ _ => .inr ⟨rfl, rfl⟩) hothers
  · rename_i hdown
    refine kept_modifyConn hlength hopen (fun _ => rfl) ?_ hothers
    intro w hw
    refine absurd (hup ?_) hdown
    rw [← hlength]
    exact (List.getElem?_eq_some_iff.mp hw).1

/-- And it takes no channel away. -/
theorem Kept.onConnection (hs : Kept s) : Kept (s.onConnection c) := by
  by_cases hup : s.connected c = true
  · exact kept_onConnection hs.length hs.isOpen (fun _ => hup) fun c' w _ => hs.held c' w
  · rw [RpcServer.onConnection, if_neg hup]
    refine kept_modifyConn hs.length hs.isOpen (fun _ => rfl) ?_ fun c' w _ => hs.held c' w
    intro w hw
    -- The message callback stays.
    exact (hs.held c w hw).imp_right fun hcyclic => hcyclic

/-! ## Every run -/

/-- The objects after a new connection: those from before, and a fresh one. -/
theorem Kept.conns_concat (hs : Kept s) {w : RpcConn} (hw : (s.conns ++ [({} : RpcConn)])[c]? = some w) :
    s.conns[c]? = some w ∨ c = s.server.accepted.length ∧ w = {} := by
  rw [← hs.length]
  exact getElem?_concat_eq_some.mp hw

theorem Kept.newConnection (hs : Kept s) (h : s.server.step .newConnection = some t) : Kept (s.newConnection t) := by
  obtain ⟨-, -, rfl⟩ := TcpServer.of_newConnection h
  have hopen : ∀ (c : Nat) (w : RpcConn), (s.conns ++ [({} : RpcConn)])[c]? = some w → w.isOpen = true := by
    intro c w hw
    rcases hs.conns_concat hw with hw | ⟨-, rfl⟩
    · exact hs.isOpen c w hw
    · rfl
  have hlength : (s.conns ++ [({} : RpcConn)]).length = s.server.addConnection.accepted.length := by
    simp [TcpServer.addConnection, hs.length]
  unfold RpcServer.newConnection TcpServer.newConnection
  cases hloop : (TcpServer.getNextLoop (k := k) s.server.next).1 with
  | none =>
    -- The connection is established at once.
    refine kept_onConnection ?_ hopen ?_ ?_
    · simpa [TcpServer.connectEstablished, TcpServer.modifyConn] using hlength
    · intro hlt
      obtain ⟨v, hv, hstate⟩ := TcpServer.state_connectEstablished (l := none) (s := s.server.addConnection)
        (c := s.server.accepted.length) (by simp [TcpServer.addConnection])
      simp [connected, hv, hstate]
    · intro c' w hc hw
      rcases hs.conns_concat hw with hw | ⟨heq, -⟩
      · exact hs.held c' w hw
      · exact absurd heq hc
  | some i =>
    refine ⟨hlength, hopen, ?_⟩
    intro c' w hw
    rcases hs.conns_concat hw with hw | ⟨rfl, -⟩
    · refine (hs.held c' w hw).imp_left ?_
      intro hawaiting
      exact TcpServer.Awaiting.queueInLoop (s := s.server.addConnection) hawaiting
    · exact .inl ⟨some i, by simp [TcpServer.queueInLoop]⟩

theorem Kept.functor {l : LoopId k} {f : ServerFunctor} {rest : List ServerFunctor} (hs : Kept s)
    (hqueue : s.server.queues l = f :: rest) (h : s.server.step (.functor l) = some t) : Kept (s.functor f t) := by
  have hlength := TcpServer.length_of_functor hqueue h
  cases f with
  | connectEstablished c =>
    refine kept_onConnection (hs.length.trans hlength.symm) hs.isOpen ?_ ?_
    · intro hlt
      obtain ⟨v, hv, hstate⟩ := TcpServer.state_connectEstablished (l := l)
        (s := { s.server with queues := Function.update s.server.queues l rest }) (hlength ▸ hlt)
      rw [← TcpServer.functor, ← TcpServer.functor_of_step hqueue h] at hv
      simp [connected, hv, hstate]
    · intro c' w hc hw
      refine (hs.held c' w hw).imp_left ?_
      intro hawaiting
      refine (hawaiting.of_functor hqueue h).resolve_left ?_
      intro heq
      exact hc (ServerFunctor.connectEstablished.inj heq).symm
  | removeConnectionInLoop c =>
    exact hs.server hlength fun c' hawaiting => (hawaiting.of_functor hqueue h).resolve_left ServerFunctor.noConfusion
  | connectDestroyed c =>
    have hkept := hs.server hlength fun c' hawaiting =>
      (hawaiting.of_functor hqueue h).resolve_left ServerFunctor.noConfusion
    simp only [RpcServer.functor]
    split
    · exact hkept.onConnection
    · exact hkept

theorem Kept.handleClose (hs : Kept s) (h : s.server.step (.handleClose c) = some t) :
    Kept ({ s with server := t }.onConnection c) := by
  obtain ⟨v, -, -, -, rfl⟩ := TcpServer.of_handleClose h
  refine (hs.server ?_ ?_).onConnection
  · simp [TcpServer.handleClose, TcpServer.modifyConn]
  · intro c' hawaiting
    exact TcpServer.Awaiting.removeConnection (s := s.server.modifyConn c _) hawaiting

theorem Kept.established {l : LoopId k} (hs : Kept s) (h : s.server.step (.established l) = some t) :
    Kept { s with server := t } := by
  obtain ⟨c, -, rfl⟩ := TcpServer.of_established h
  refine hs.server ?_ fun c' hawaiting => hawaiting
  simp [TcpServer.modifyConn]

theorem Kept.step {s t : RpcServer k} {e : Event k} (hs : Kept s) (h : s.step e = some t) : Kept t := by
  cases e with
  | newConnection =>
    simp only [RpcServer.step] at h
    split at h
    · obtain ⟨u, hu, rfl⟩ := Option.map_eq_some_iff.mp h
      exact (hs.newConnection hu).settle
    · cases h
  | functor l =>
    simp only [RpcServer.step] at h
    split at h
    · split at h
      · cases h
      · rename_i f rest hqueue
        obtain ⟨u, hu, rfl⟩ := Option.map_eq_some_iff.mp h
        exact (hs.functor hqueue hu).settle
    · cases h
  | established l =>
    obtain ⟨u, hu, rfl⟩ := Option.map_eq_some_iff.mp h
    exact (hs.established hu).settle
  | message c requests =>
    simp only [RpcServer.step] at h
    split at h
    · split at h
      · cases h
        exact ⟨hs.length, hs.isOpen, hs.held⟩
      · cases h
    · cases h
  | handled l =>
    simp only [RpcServer.step] at h
    split at h
    · cases h
      exact Kept.settle ⟨hs.length, hs.isOpen, hs.held⟩
    · cases h
  | done i =>
    simp only [RpcServer.step] at h
    split at h
    · cases h
      exact ⟨hs.length, hs.isOpen, hs.held⟩
    · cases h
  | handleClose c =>
    simp only [RpcServer.step] at h
    split at h
    · cases h
    · split at h
      · obtain ⟨u, hu, rfl⟩ := Option.map_eq_some_iff.mp h
        exact (hs.handleClose hu).settle
      · cases h

theorem kept_of_run {name ipPort : String} {es : List (Event k)}
    (hrun : (system k).Run (fun _ _ => True) { server := { name, ipPort } } es s) : Kept s := by
  refine hrun.invariant (fun hs _ h => hs.step h) ?_
  refine ⟨rfl, ?_, ?_⟩
  · intro c w hw
    cases hw
  · intro c w hw
    cases hw

theorem Kept.openSockets (hs : Kept s) : s.openSockets = s.server.accepted.length := by
  rw [← hs.length]
  refine List.countP_eq_length.mpr ?_
  intro w hw
  obtain ⟨c, hc⟩ := List.mem_iff_getElem?.mp hw
  exact hs.isOpen c w hc

theorem accepted_of_tornDown (h : s.tornDown c = true) : c < s.server.accepted.length ∧ s.held c = [] := by
  rw [tornDown, Bool.and_eq_true, Option.any_eq_true] at h
  obtain ⟨⟨v, hv, -⟩, hheld⟩ := h
  exact ⟨(List.getElem?_eq_some_iff.mp hv).1, List.isEmpty_iff.mp hheld⟩

/-- The channel of a connection that is torn down still holds it. -/
theorem Kept.strongRefs (hs : Kept s) (h : s.tornDown c = true) : s.strongRefs c = [.channel] := by
  obtain ⟨hlt, hheld⟩ := accepted_of_tornDown h
  rw [← hs.length] at hlt
  have hw := List.getElem?_eq_getElem hlt
  rcases hs.held c _ hw with hawaiting | hcyclic
  · exact absurd hheld (held_of_awaiting hawaiting)
  · simp [RpcServer.strongRefs, hheld, hw, hcyclic.2]

theorem notTornDown_iff : s.notTornDown = s.server.accepted.length ↔ ∀ c, s.tornDown c = false := by
  have hcount : s.notTornDown = s.server.accepted.length ↔
      ∀ c ∈ List.range s.server.accepted.length, (!s.tornDown c) = true := by
    rw [← List.countP_eq_length, List.length_range]
    exact .rfl
  rw [hcount]
  constructor
  · intro hall c
    cases htorn : s.tornDown c with
    | false => rfl
    | true =>
      have hc := hall c (List.mem_range.mpr (accepted_of_tornDown htorn).1)
      rw [htorn] at hc
      cases hc
  · intro hnone c _
    rw [hnone c]
    rfl

/-- No connection that is torn down is released: all sockets stay open. -/
theorem releases_iff {name ipPort : String} {es : List (Event k)}
    (hrun : (system k).Run (fun _ _ => True) { server := { name, ipPort } } es s) :
    ((∀ c, s.tornDown c = true → s.strongRefs c = [] ∧ ∀ w, s.conns[c]? = some w → w.isOpen = false) ↔
      ∀ c, s.tornDown c = false) ∧ (s.openSockets = s.notTornDown ↔ ∀ c, s.tornDown c = false) := by
  have hs := kept_of_run hrun
  refine ⟨⟨?_, ?_⟩, ?_⟩
  · intro hreleased c
    cases htorn : s.tornDown c with
    | false => rfl
    | true =>
      have hrefs := (hreleased c htorn).1
      rw [hs.strongRefs htorn] at hrefs
      cases hrefs
  · intro hnone c htorn
    rw [hnone c] at htorn
    cases htorn
  · rw [hs.openSockets, eq_comm]
    exact notTornDown_iff

/-- Two connections: the first has a request and is closed; its removal is queued. -/
def closing : List (Event 1) :=
  [.newConnection, .functor (some 0), .established (some 0), .message 0 1, .newConnection, .handled (some 0), .done 0,
    .handleClose 0]

/-- And it is torn down. -/
def closed : List (Event 1) := closing ++ [.functor none, .functor (some 0), .established (some 0), .functor (some 0)]

theorem closing_none_torn_down :
    ∃ s, (system 1).Run (fun _ _ => True) { server := { name := "RpcServer", ipPort := "0.0.0.0:2000" } } closing s ∧
      (∀ c, s.tornDown c = true → s.strongRefs c = [] ∧ ∀ w, s.conns[c]? = some w → w.isOpen = false) ∧
      s.openSockets = s.notTornDown := by
  obtain ⟨s, hrun, hcalls⟩ : ∃ s,
      (system 1).Run (fun _ _ => True) { server := { name := "RpcServer", ipPort := "0.0.0.0:2000" } } closing s ∧
      ∀ v ∈ s.server.accepted, v.destroyCalls = [] := by
    refine Stepper.Run.replay rfl ?_
    intro _
    decide
  have hnone : ∀ c, s.tornDown c = false := by
    intro c
    cases hv : s.server.accepted[c]? with
    | none => simp [tornDown, hv]
    | some v => simp [tornDown, hv, hcalls v (List.mem_of_getElem? hv)]
  obtain ⟨hreleased, hsockets⟩ := releases_iff hrun
  exact ⟨s, hrun, hreleased.mpr hnone, hsockets.mpr hnone⟩

theorem torn_down_not_released :
    ∃ s, (system 1).Run (fun _ _ => True) { server := { name := "RpcServer", ipPort := "0.0.0.0:2000" } } closed s ∧
      s.tornDown 0 = true ∧ s.strongRefs 0 = [.channel] ∧ s.openSockets = 2 ∧ s.notTornDown = 1 := by
  refine Stepper.Run.replay rfl ?_
  intro _
  exact ⟨by decide, by decide, by decide, by decide⟩

end RpcServer
end Muduo
