import Muduo.Lib.Simulation
import Muduo.RpcWire
import Muduo.Theorems.ProtobufRoundTrip
import Muduo.Theorems.RpcCalls

/-! # Calls over a connection are calls over queues

Whatever the pieces in which the bytes arrive, and wherever the connection breaks off, the messages that the codecs
deliver are a prefix of those that were sent. So a run over bytes is a run of `RpcLink`, and what holds of the calls
there holds here. -/

namespace Muduo
open Lib ProtobufCodec RpcChannel

/-! ## Streams of frames -/

namespace RpcCodec
variable {c : RpcCodec} {m : { m : RpcMessage // c.Sendable m }} {ms : List { m : RpcMessage // c.Sendable m }}

def stream (c : RpcCodec) (ms : List { m : RpcMessage // c.Sendable m }) : Bytes := ms.flatMap c.codec.send

theorem codec_parse (m : { m : RpcMessage // c.Sendable m }) : c.codec.parseFromArray (c.codec.serialize m) = some m := by
  have hparse := c.parse_serialize m.val m.property.1 m.property.2
  simp only [RpcCodec.codec, hparse, Option.bind_some, dif_pos m.property]

/-- What a turn of the loop finds at the front of a stream that has arrived in part. -/
theorem verdict_stream {l rest : Bytes} (h : l ++ rest = c.stream (m :: ms)) (hwait : c.codec.verdict l ≠ .incomplete) :
    (∃ code, c.codec.verdict l = .error code) ∨
      c.codec.verdict l = .frame (c.codec.send m).length (some m) ∧
        (c.codec.send m).length ≤ l.length ∧ l.drop (c.codec.send m).length ++ rest = c.stream ms := by
  have hwhole : l ++ rest = c.codec.send m ++ c.stream ms := h
  have hverdict := verdict_append hwait rest
  rw [hwhole] at hverdict
  rcases Nat.lt_or_ge kMaxMessageLen (c.codec.messageLen m) with hlong | hshort
  · exact .inl ⟨_, hverdict.symm.trans (verdict_long hlong (c.stream ms))⟩
  · have hframe := hverdict.symm.trans (verdict_frame rfl codec_parse hshort (c.stream ms))
    have hlen : (c.codec.send m).length ≤ l.length := (frame_bounds hframe).2
    refine .inr ⟨hframe, hlen, ?_⟩
    rw [← List.drop_append_of_le_length hlen, hwhole, List.drop_left]

theorem verdict_nil : c.codec.verdict [] = .incomplete := by simp [verdict, kHeaderLen]

end RpcCodec

/-! ## One direction of the connection -/

/-- The bytes of the frame whose message the callback has. -/
def CodecLoop.taken : CodecLoop → Nat
  | .callback n => n
  | _ => 0

namespace RpcEnd
variable {c : RpcCodec} {e e' sender receiver : RpcEnd} {queue : List RpcMessage}

/-- What has been read and no callback has seen. -/
def unread (e : RpcEnd) : Bytes := e.inputBuffer.readableSpan.drop e.loop.taken

theorem unread_eq (h : e.loop.taken = 0) : e.unread = e.inputBuffer.readableSpan := by rw [unread, h, List.drop_zero]

theorem sendAll_eq_some {ms : List RpcMessage} (h : e.sendAll c ms = some e') :
    ∃ ws : List { m : RpcMessage // c.Sendable m }, ms = ws.map (·.val) ∧
      e' = { e with outgoing := if e.connected then e.outgoing ++ c.stream ws else e.outgoing } := by
  induction ms generalizing e with
  | nil =>
    cases h
    refine ⟨[], rfl, ?_⟩
    simp [RpcCodec.stream]
  | cons m ms ih =>
    obtain ⟨mid, hmid, hrest⟩ := Option.bind_eq_some_iff.mp h
    rw [send] at hmid
    split at hmid
    · rename_i hm
      cases hmid
      obtain ⟨ws, rfl, rfl⟩ := ih hrest
      refine ⟨⟨m, hm⟩ :: ws, rfl, ?_⟩
      cases hconn : e.connected <;> simp [hconn, RpcCodec.stream, List.append_assoc]
    · cases hmid

/-- The messages of a queue are those whose frames are on the way, or were when the connection broke off. -/
def Carries (c : RpcCodec) (queue : List RpcMessage) (sender receiver : RpcEnd) : Prop :=
  ∃ (ms : List { m : RpcMessage // c.Sendable m }) (rest : Bytes), queue = ms.map (·.val) ∧
    receiver.unread ++ sender.outgoing ++ rest = c.stream ms ∧ (sender.connected = true → rest = [])

theorem Carries.congr {sender' receiver' : RpcEnd} (h : Carries c queue sender receiver)
    (hout : sender'.outgoing = sender.outgoing) (hconn : sender'.connected = true → sender.connected = true)
    (hunread : receiver'.unread = receiver.unread) : Carries c queue sender' receiver' := by
  obtain ⟨ms, rest, hqueue, hbytes, hrest⟩ := h
  exact ⟨ms, rest, hqueue, by rw [hunread, hout, hbytes], fun h' => hrest (hconn h')⟩

theorem Carries.send (h : Carries c queue sender receiver) (ws : List { m : RpcMessage // c.Sendable m }) :
    Carries c (queue ++ ws.map (·.val))
      { sender with outgoing := if sender.connected then sender.outgoing ++ c.stream ws else sender.outgoing }
      receiver := by
  obtain ⟨ms, rest, rfl, hbytes, hrest⟩ := h
  have hstream : c.stream (ms ++ ws) = c.stream ms ++ c.stream ws := List.flatMap_append
  cases hconn : sender.connected with
  | true =>
    refine ⟨ms ++ ws, [], List.map_append.symm, ?_, fun _ => rfl⟩
    rw [hrest hconn, List.append_nil] at hbytes
    simp only [if_true, List.append_nil]
    rw [hstream, ← hbytes, List.append_assoc]
  | false =>
    refine ⟨ms ++ ws, rest ++ c.stream ws, List.map_append.symm, ?_, fun h => absurd h Bool.false_ne_true⟩
    simp only [Bool.false_eq_true, if_false]
    rw [hstream, ← hbytes, List.append_assoc, List.append_assoc, List.append_assoc]

/-- The other end reads the first `n` bytes. -/
theorem Carries.read (h : Carries c queue sender receiver) (hloop : receiver.loop = .outside) (n : Nat) :
    Carries c queue { sender with outgoing := sender.outgoing.drop n }
      { receiver with
        inputBuffer := receiver.inputBuffer.readFd (sender.outgoing.take n)
        loop := .turning } := by
  obtain ⟨ms, rest, hqueue, hbytes, hrest⟩ := h
  refine ⟨ms, rest, hqueue, ?_, hrest⟩
  rw [← hbytes, unread, unread, hloop, Buffer.readableSpan_readFd]
  simp only [CodecLoop.taken, List.drop_zero, List.append_assoc]
  rw [← List.append_assoc (sender.outgoing.take n), List.take_append_drop]

theorem Carries.cut (h : Carries c queue sender receiver) (n : Nat) : Carries c queue (sender.cut n) receiver := by
  obtain ⟨ms, rest, hqueue, hbytes, -⟩ := h
  refine ⟨ms, sender.outgoing.drop n ++ rest, hqueue, ?_, fun hconn => absurd hconn Bool.false_ne_true⟩
  rw [← hbytes, RpcEnd.cut]
  simp only [List.append_assoc]
  rw [← List.append_assoc (sender.outgoing.take n), List.take_append_drop]

/-- The frame that a turn of the loop finds is that of the first message of the queue. -/
theorem Carries.frame (h : Carries c queue sender receiver) (hloop : receiver.loop.taken = 0) {n : Nat}
    {found : Option { m : RpcMessage // c.Sendable m }}
    (hverdict : c.codec.verdict receiver.inputBuffer.readableSpan = .frame n found) :
    ∃ m rest, found = some m ∧ queue = m.val :: rest ∧ ∀ receiver' : RpcEnd,
      receiver'.unread = receiver.inputBuffer.readableSpan.drop n → Carries c rest sender receiver' := by
  obtain ⟨ms, tail, rfl, hbytes, htail⟩ := h
  rw [unread_eq hloop, List.append_assoc] at hbytes
  have hwait : c.codec.verdict receiver.inputBuffer.readableSpan ≠ .incomplete := by
    rw [hverdict]
    exact fun h => nomatch h
  cases ms with
  | nil =>
    have hnil := List.append_eq_nil_iff.mp hbytes
    rw [hnil.1] at hwait
    exact absurd RpcCodec.verdict_nil hwait
  | cons m ms =>
    rcases RpcCodec.verdict_stream hbytes hwait with ⟨code, herror⟩ | ⟨hframe, -, hrest⟩
    · cases hverdict.symm.trans herror
    · cases hverdict.symm.trans hframe
      refine ⟨m, ms.map (·.val), rfl, rfl, ?_⟩
      intro receiver' hunread'
      exact ⟨ms, tail, rfl, by rw [hunread', List.append_assoc, hrest], htail⟩

/-- A loop that waits for more bytes, with nothing on the way, has delivered everything. -/
theorem Carries.drained (h : Carries c queue sender receiver) (hconn : sender.connected = true)
    (hout : sender.outgoing = []) (hloop : receiver.loop.taken = 0)
    (hwait : c.codec.verdict receiver.inputBuffer.readableSpan = .incomplete) :
    queue = [] ∧ receiver.inputBuffer.readableSpan = [] := by
  obtain ⟨ms, rest, rfl, hbytes, hrest⟩ := h
  rw [unread_eq hloop, hout, hrest hconn, List.append_nil, List.append_nil] at hbytes
  cases ms with
  | nil => exact ⟨rfl, hbytes⟩
  | cons m ms =>
    rw [hbytes] at hwait
    rcases Nat.lt_or_ge kMaxMessageLen (c.codec.messageLen m) with hlong | hshort
    · cases hwait.symm.trans (verdict_long hlong (c.stream ms))
    · cases hwait.symm.trans (verdict_frame rfl RpcCodec.codec_parse hshort (c.stream ms))

end RpcEnd

namespace RpcWire
open RpcEnd
variable {T M : Type} {pb : Protobuf T M} {c : RpcCodec} {w t : RpcWire pb} {s : RpcLink pb}

/-! ## The steps of the threads -/

/-- The link with messages in front of those in its queues. -/
def behind (toServer toClient : List RpcMessage) (l : RpcLink pb) : RpcLink pb :=
  { l with toServer := toServer ++ l.toServer, toClient := toClient ++ l.toClient }

/-- The messages of which the frames are on the way, and what the loops are at. -/
structure OnTheWay (c : RpcCodec) (w : RpcWire pb) (toServer toClient : List RpcMessage) : Prop where
  handed : w.link.toServer = [] ∧ w.link.toClient = []
  toServer : Carries c toServer w.client w.server
  toClient : Carries c toClient w.server w.client
  handling : w.link.handling.isSome → ∃ n, w.client.loop = .callback n
  serverLoop : w.server.loop.taken = 0

/-- The link of a wire, with the messages that are on the way in its queues. -/
def Refines (c : RpcCodec) (w : RpcWire pb) (s : RpcLink pb) : Prop :=
  ∃ toServer toClient, s = behind toServer toClient w.link ∧ OnTheWay c w toServer toClient

/-- What a step hands to the codecs comes behind what is on the way. -/
theorem transmit_refines {link : RpcLink pb} {client server : RpcEnd} {toServer toClient : List RpcMessage}
    (h : transmit c ⟨link, client, server⟩ = some t) (hserver : Carries c toServer client server)
    (hclient : Carries c toClient server client) (hhandling : link.handling.isSome → ∃ n, client.loop = .callback n)
    (hloop : server.loop.taken = 0) : Refines c t (behind toServer toClient link) := by
  obtain ⟨client', hc, hrest⟩ := Option.bind_eq_some_iff.mp h
  obtain ⟨server', hs, rfl⟩ := Option.map_eq_some_iff.mp hrest
  obtain ⟨ws, hws, rfl⟩ := sendAll_eq_some hc
  obtain ⟨vs, hvs, rfl⟩ := sendAll_eq_some hs
  simp only at hws hvs
  refine ⟨toServer ++ link.toServer, toClient ++ link.toClient, ?_, ⟨rfl, rfl⟩, ?_, ?_, hhandling, hloop⟩
  · simp [behind]
  · rw [hws]
    exact (hserver.send ws).congr rfl id rfl
  · rw [hvs]
    exact (hclient.send vs).congr rfl id rfl

/-- The steps of a link that take nothing out of its queues and put in what is sent. -/
def FromThread : RpcLink.Event pb → Prop
  | .serverReceive | .clientReceive | .inject _ => False
  | _ => True

variable {toServer toClient rest : List RpcMessage} {l : RpcLink pb}

theorem serverReceive_behind (toServer : List RpcMessage) (m : RpcMessage) :
    (behind toServer toClient l).serverReceive m rest = behind rest toClient (l.serverReceive m []) := by
  simp only [RpcLink.serverReceive, behind]
  cases (l.server.onRpcMessage pb l.server.conn m).1 <;>
    simp [RpcLink.serverReact, RpcLink.emit]

theorem clientReceive_behind (toClient : List RpcMessage) (m : RpcMessage) :
    (behind toServer toClient l).clientReceive m rest = behind toServer rest (l.clientReceive m []) := by
  simp only [RpcLink.clientReceive, behind]
  cases (l.client.onRpcMessage pb l.client.conn m).1 <;>
    simp [RpcLink.clientReact]

theorem serverReceive_handling (m : RpcMessage) : (l.serverReceive m rest).handling = l.handling := by
  rw [RpcLink.serverReceive]
  cases (l.server.onRpcMessage pb l.server.conn m).1 <;> rfl

section
variable [DecidableEq T]

/-- A thread does not look at the messages on the way. -/
theorem step_behind {e : RpcLink.Event pb} (he : FromThread e) :
    (behind toServer toClient l).step e = (l.step e).map (behind toServer toClient) := by
  cases e with
  | serverReceive => exact he.elim
  | clientReceive => exact he.elim
  | inject m => exact he.elim
  | fetchAdd call => rfl
  | register k =>
    have hnumbered : (behind toServer toClient l).numbered = l.numbered := rfl
    simp only [RpcLink.step, hnumbered]
    cases l.numbered[k]? <;> rfl
  | sendRequest k =>
    have hunsent : (behind toServer toClient l).unsent = l.unsent := rfl
    simp only [RpcLink.step, hunsent]
    cases l.unsent[k]? with
    | none => rfl
    | some m => simp [RpcLink.sendRequest, behind]
  | runDone k reply =>
    have hserving : (behind toServer toClient l).serving = l.serving := rfl
    simp only [RpcLink.step, hserving]
    cases l.serving[k]? with
    | none => rfl
    | some call =>
      simp only
      split
      · simp [RpcLink.runDone, RpcLink.emit, behind]
      · rfl
  | complete =>
    have hhandling : (behind toServer toClient l).handling = l.handling := rfl
    simp only [RpcLink.step, hhandling]
    cases l.handling with
    | none => rfl
    | some h =>
      simp only [Option.map_some, RpcLink.complete]
      cases h.1.response <;> rfl

theorem handling_of_thread {l' : RpcLink pb} {e : RpcLink.Event pb} (he : FromThread e) (h : l.step e = some l')
    (hsome : l'.handling.isSome) : l.handling.isSome := by
  cases e with
  | serverReceive => exact he.elim
  | clientReceive => exact he.elim
  | inject m => exact he.elim
  | fetchAdd call =>
    cases h
    exact hsome
  | register k =>
    obtain ⟨n, -, rfl⟩ := Option.map_eq_some_iff.mp h
    exact hsome
  | sendRequest k =>
    obtain ⟨m, -, rfl⟩ := Option.map_eq_some_iff.mp h
    exact hsome
  | runDone k reply =>
    simp only [RpcLink.step] at h
    split at h
    · cases h
    · split at h
      · cases h
        exact hsome
      · cases h
  | complete =>
    obtain ⟨out, -, rfl⟩ := Option.map_eq_some_iff.mp h
    rw [RpcLink.complete] at hsome
    split at hsome <;> exact absurd hsome Bool.false_ne_true

/-! ## The simulation -/

theorem OnTheWay.onLink (h : OnTheWay c w toServer toClient) {e : RpcLink.Event pb} (he : FromThread e)
    (hstep : w.onLink c e = some t) :
    ∃ y, (RpcLink.system pb).Reaches (fun _ e => e.injects = false) (behind toServer toClient w.link) y ∧
      Refines c t y := by
  obtain ⟨link, hlink, htransmit⟩ := Option.bind_eq_some_iff.mp hstep
  have hthread : (behind toServer toClient w.link).step e = some (behind toServer toClient link) := by
    rw [step_behind he, hlink]
    rfl
  refine ⟨_, .single ?_ hthread, transmit_refines htransmit h.toServer h.toClient ?_ h.serverLoop⟩
  · cases e <;> first | rfl | exact he.elim
  · exact fun hsome => h.handling (handling_of_thread he hlink hsome)

theorem OnTheWay.serverTurn (h : OnTheWay c w toServer toClient) (hstep : w.serverTurn c = some t) :
    ∃ y, (RpcLink.system pb).Reaches (fun _ e => e.injects = false) (behind toServer toClient w.link) y ∧
      Refines c t y := by
  simp only [RpcWire.serverTurn] at hstep
  split at hstep
  · cases hstep
    exact ⟨_, .refl _, toServer, toClient, rfl, h.handed, h.toServer.congr rfl id (unread_eq h.serverLoop).symm,
      h.toClient.congr rfl id rfl, h.handling, rfl⟩
  · rename_i n hverdict
    obtain ⟨m, rest, hfound, -⟩ := h.toServer.frame h.serverLoop hverdict
    cases hfound
  · rename_i n m hverdict
    obtain ⟨m, rest, hfound, rfl, hrest⟩ := h.toServer.frame h.serverLoop hverdict
    cases hfound
    have hreceive : (behind (m.val :: rest) toClient w.link).step .serverReceive =
        some (behind rest toClient (w.link.serverReceive m.val [])) := by
      rw [← serverReceive_behind (m.val :: rest)]
      simp [RpcLink.step, behind, h.handed.1]
    refine ⟨_, .single (e := .serverReceive) rfl hreceive, transmit_refines hstep ?_ (h.toClient.congr rfl id rfl) ?_ h.serverLoop⟩
    · exact hrest _ (by simp [unread, h.serverLoop])
    · rw [serverReceive_handling]
      exact h.handling
  · cases hstep
    exact ⟨_, .refl _, toServer, toClient, rfl, h.handed, h.toServer.congr rfl id (unread_eq h.serverLoop).symm,
      h.toClient.congr rfl (fun hconn => absurd hconn Bool.false_ne_true) rfl, h.handling, rfl⟩

theorem OnTheWay.clientTurn (h : OnTheWay c w toServer toClient) (hloop : w.client.loop = .turning)
    (hstep : w.clientTurn c = some t) :
    ∃ y, (RpcLink.system pb).Reaches (fun _ e => e.injects = false) (behind toServer toClient w.link) y ∧
      Refines c t y := by
  have htaken : w.client.loop.taken = 0 := by rw [hloop]; rfl
  have hhandling : w.link.handling = none := by
    rw [← Option.not_isSome_iff_eq_none]
    intro hsome
    obtain ⟨n, hcallback⟩ := h.handling hsome
    cases hloop.symm.trans hcallback
  simp only [RpcWire.clientTurn] at hstep
  split at hstep
  · cases hstep
    refine ⟨_, .refl _, toServer, toClient, rfl, h.handed, h.toServer.congr rfl id rfl,
      h.toClient.congr rfl id (unread_eq htaken).symm, ?_, h.serverLoop⟩
    simp [hhandling]
  · rename_i n hverdict
    obtain ⟨m, rest, hfound, -⟩ := h.toClient.frame htaken hverdict
    cases hfound
  · rename_i n m hverdict
    obtain ⟨m, rest, hfound, rfl, hrest⟩ := h.toClient.frame htaken hverdict
    cases hfound
    have hreceive : (behind toServer (m.val :: rest) w.link).step .clientReceive =
        some (behind toServer rest (w.link.clientReceive m.val [])) := by
      rw [← clientReceive_behind (m.val :: rest)]
      simp [RpcLink.step, behind, h.handed.2, hhandling]
    refine ⟨_, .single (e := .clientReceive) rfl hreceive,
      transmit_refines hstep (h.toServer.congr rfl id rfl) (hrest _ rfl) (fun _ => ⟨n, rfl⟩) h.serverLoop⟩
  · cases hstep
    refine ⟨_, .refl _, toServer, toClient, rfl, h.handed,
      h.toServer.congr rfl (fun hconn => absurd hconn Bool.false_ne_true) rfl,
      h.toClient.congr rfl id (unread_eq htaken).symm, ?_, h.serverLoop⟩
    simp [hhandling]

/-- Every step over the connection is some steps of the link. -/
theorem simulates : Stepper.Simulates (system pb c) (fun _ _ => True) (RpcLink.system pb)
    (fun _ e => e.injects = false) (Refines c) := by
  rintro w t e s ⟨toServer, toClient, rfl, h⟩ - hstep
  have hstep : step c w e = some t := hstep
  cases e with
  | fetchAdd call => exact h.onLink (e := .fetchAdd call) trivial hstep
  | register k => exact h.onLink (e := .register k) trivial hstep
  | sendRequest k => exact h.onLink (e := .sendRequest k) trivial hstep
  | runDone k reply => exact h.onLink (e := .runDone k reply) trivial hstep
  | complete => exact h.onLink (e := .complete) trivial hstep
  | serverRead n =>
    simp only [step] at hstep
    split at hstep
    · rename_i hguard
      cases hstep
      refine ⟨_, .refl _, toServer, toClient, rfl, h.handed, h.toServer.read hguard.1 n, ?_, h.handling, rfl⟩
      exact h.toClient.congr rfl id rfl
    · cases hstep
  | serverTurn =>
    simp only [step] at hstep
    split at hstep
    · exact h.serverTurn hstep
    · cases hstep
  | clientRead n =>
    simp only [step] at hstep
    split at hstep
    · rename_i hguard
      cases hstep
      refine ⟨_, .refl _, toServer, toClient, rfl, h.handed, h.toServer.congr rfl id rfl, h.toClient.read hguard.1 n, ?_,
        h.serverLoop⟩
      intro hsome
      obtain ⟨k, hcallback⟩ := h.handling hsome
      cases hguard.1.symm.trans hcallback
    · cases hstep
  | clientTurn =>
    simp only [step] at hstep
    split at hstep
    · rename_i hloop
      exact h.clientTurn hloop hstep
    · cases hstep
  | clientReturn =>
    simp only [step] at hstep
    split at hstep
    · rename_i n hloop hhandling
      cases hstep
      refine ⟨_, .refl _, toServer, toClient, rfl, h.handed, h.toServer.congr rfl id rfl, ?_, ?_, h.serverLoop⟩
      · refine h.toClient.congr rfl id ?_
        simp [unread, hloop, CodecLoop.taken, clientReturn]
      · simp [clientReturn, hhandling]
    · cases hstep
  | cutToServer n =>
    cases hstep
    exact ⟨_, .refl _, toServer, toClient, rfl, h.handed, h.toServer.cut n, h.toClient.congr rfl id rfl, h.handling,
      h.serverLoop⟩
  | cutToClient n =>
    cases hstep
    exact ⟨_, .refl _, toServer, toClient, rfl, h.handed, h.toServer.congr rfl id rfl, h.toClient.cut n, h.handling,
      h.serverLoop⟩

end

variable {services : Option (String → Option (List String))} {clientConn serverConn : Nat} {es : List (Event pb)}

theorem refines_initial :
    Refines c (initial pb services clientConn serverConn) (.initial pb services clientConn serverConn) := by
  refine ⟨[], [], rfl, ⟨rfl, rfl⟩, ⟨[], [], rfl, ?_, fun _ => rfl⟩, ⟨[], [], rfl, ?_, fun _ => rfl⟩, ?_, rfl⟩ <;>
    simp [initial, unread, RpcLink.initial, RpcCodec.stream]

theorem link_eq (h : w.link.toServer = [] ∧ w.link.toClient = []) :
    w.link = { behind toServer toClient w.link with toServer := [], toClient := [] } := by
  have heta : w.link = { w.link with toServer := w.link.toServer, toClient := w.link.toClient } := rfl
  rw [h.1, h.2] at heta
  exact heta

/-- Whatever the threads do, in whatever pieces the bytes are read and wherever the connection breaks off, a run over
the connection is a run of the link without injected responses: the calls, the map and the services are the same, and
the messages in its queues are those of which the frames are on the way. So `done` runs at most once for a call, and
the object of a call holds what the service has answered to it. -/
theorem run_refines_link [DecidableEq T]
    (h : (system pb c).Run (fun _ _ => True) (initial pb services clientConn serverConn) es w) :
    (∃ s, (RpcLink.system pb).Reaches (fun _ e => e.injects = false) (.initial pb services clientConn serverConn) s ∧
        w.link = { s with toServer := [], toClient := [] } ∧ Carries c s.toServer w.client w.server ∧
        Carries c s.toClient w.server w.client) ∧
      w.link.doneRuns.Nodup ∧
      ∀ i call, w.link.calls[i]? = some call → ∀ m, w.link.objects i = some m ↔
        i ∈ w.link.completed ∧ (⟨⟨i + 1, call.method, call.request⟩, m⟩ : RpcAnswer M) ∈ w.link.answers := by
  obtain ⟨s, hs, toServer, toClient, rfl, hway⟩ := simulates.run h refines_initial
  obtain ⟨es', hrun⟩ := hs
  obtain ⟨hinv, -, hcontents, -⟩ := RpcLink.Run.matched hrun
  refine ⟨⟨_, ⟨es', hrun⟩, link_eq hway.handed, ?_, ?_⟩, ?_, ?_⟩
  · simpa [behind, hway.handed.1] using hway.toServer
  · simpa [behind, hway.handed.2] using hway.toClient
  · exact hinv.completions.completed_nodup.sublist hinv.completions.doneRuns
  · intro i call hcall m
    exact hcontents.object_iff hcall m

/-- A stand-in for protobuf in concrete runs: the messages of a table are serialized, each as its place there. -/
def tableCodec (table : List RpcMessage) : RpcCodec where
  serialize m := if table.idxOf m < min table.length 256 then [UInt8.ofNat (table.idxOf m)] else List.replicate (2 ^ 31) 0
  parseFromArray bytes :=
    match bytes with
    | [x] => table[x.toNat]?
    | _ => none
  parse_serialize m _ hlen := by
    by_cases hlt : table.idxOf m < min table.length 256
    · have hbyte : (UInt8.ofNat (table.idxOf m)).toNat = table.idxOf m := by
        rw [UInt8.toNat_ofNat']
        omega
      simp only [if_pos hlt, hbyte]
      rw [List.getElem?_eq_getElem (by omega), List.getElem_idxOf]
    · rw [if_neg hlt, List.length_replicate] at hlen
      omega

/-- The messages of a call to a service that the server does not have. -/
def refusedCodec : RpcCodec :=
  tableCodec [requestMessage RpcLink.rawProtobuf 1 (RpcLink.callOf "Other" [2]), errorResponse 1 .NO_SERVICE]

/-- The call, whose request arrives in two pieces. -/
def refusedCall : List (Event RpcLink.rawProtobuf) :=
  [.fetchAdd (RpcLink.callOf "Other" [2]), .register 0, .sendRequest 0, .serverRead 5, .serverTurn, .serverRead 8,
    .serverTurn, .serverTurn, .clientRead 13, .clientTurn, .complete, .clientReturn, .clientTurn]

theorem run_refines_link_refused :
    ∃ w, (system RpcLink.rawProtobuf refusedCodec).Run (fun _ _ => True)
        (initial RpcLink.rawProtobuf RpcLink.echoServices 0 1) refusedCall w ∧ w.link.doneRuns = [0] ∧
      ∃ s, (RpcLink.system RpcLink.rawProtobuf).Reaches (fun _ e => e.injects = false)
        (.initial RpcLink.rawProtobuf RpcLink.echoServices 0 1) s ∧ s.doneRuns = [0] := by
  have hreplay : ((system RpcLink.rawProtobuf refusedCodec).checked (fun _ _ => True)
      (initial RpcLink.rawProtobuf RpcLink.echoServices 0 1) refusedCall).any (fun w => w.link.doneRuns = [0]) = true := by
    decide +kernel
  obtain ⟨w, hrun, hdone⟩ := Stepper.Run.of_any hreplay
  have hdone : w.link.doneRuns = [0] := of_decide_eq_true hdone
  obtain ⟨⟨s, hs, hlink, -, -⟩, -, -⟩ := run_refines_link hrun
  refine ⟨w, hrun, hdone, s, hs, ?_⟩
  rw [hlink] at hdone
  exact hdone

end RpcWire
end Muduo
