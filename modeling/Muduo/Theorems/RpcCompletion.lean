import Muduo.Theorems.RpcWire

/-! # No call is forgotten

A response that the client has looked up is handled, and a loop that has returned waits for the rest of a frame. So
when the threads are done and nothing is on the way, on a connection that holds, every call is completed. -/

namespace Muduo
open Lib ProtobufCodec RpcChannel

/-! ## No call is left -/

namespace RpcLink
variable {T M : Type} {pb : Protobuf T M} {s t : RpcLink pb}

/-- When no thread and no message is left, no call is. -/
theorem Answered.all_completed (htokens : Tokens s) (h : Answered s) (hnumbered : s.numbered = [])
    (hflight : s.inFlight = []) (hhandling : s.handling = none) {i : Nat} {call : RpcCall pb}
    (hcall : s.calls[i]? = some call) (hresponse : call.response = true) :
    i ∈ s.completed ∧ (call.done = true → i ∈ s.doneRuns) := by
  have hissued : i + 1 ∈ s.issued := by
    rcases h.registered i (List.getElem?_eq_some_iff.mp hcall).1 with hmem | hmem
    · rw [hnumbered] at hmem
      cases hmem
    · exact hmem
  have hprocessed : i + 1 ∈ s.processed := by
    have hperm := htokens.perm
    rw [hflight] at hperm
    exact hperm.mem_iff.mpr hissued
  rcases h.handled i call hcall hresponse hprocessed with ⟨response, hsome⟩ | hdone
  · cases hhandling.symm.trans hsome
  · exact hdone

end RpcLink

/-! ## Loops that have returned -/

namespace RpcWire
open RpcEnd
variable {T M : Type} {pb : Protobuf T M} {c : RpcCodec} {w t : RpcWire pb}

/-- On a connection that holds, `onMessage` has returned for want of bytes. -/
def Waiting (c : RpcCodec) (e : RpcEnd) : Prop :=
  e.connected = true → e.loop = .outside → c.codec.verdict e.inputBuffer.readableSpan = .incomplete

theorem Waiting.of_loop {e : RpcEnd} (h : e.loop ≠ .outside) : Waiting c e := fun _ houtside => absurd houtside h

theorem Waiting.of_disconnected {e : RpcEnd} (h : e.connected = false) : Waiting c e :=
  fun hconn => absurd (h.symm.trans hconn) Bool.false_ne_true

theorem transmit_waiting (h : transmit c w = some t) (hclient : Waiting c w.client) (hserver : Waiting c w.server) :
    Waiting c t.client ∧ Waiting c t.server := by
  obtain ⟨client, hc, hrest⟩ := Option.bind_eq_some_iff.mp h
  obtain ⟨server, hs, rfl⟩ := Option.map_eq_some_iff.mp hrest
  obtain ⟨ws, -, rfl⟩ := sendAll_eq_some hc
  obtain ⟨vs, -, rfl⟩ := sendAll_eq_some hs
  exact ⟨hclient, hserver⟩

section
variable [DecidableEq T]

theorem onLink_waiting {e : RpcLink.Event pb} (h : w.onLink c e = some t) (hclient : Waiting c w.client)
    (hserver : Waiting c w.server) : Waiting c t.client ∧ Waiting c t.server := by
  obtain ⟨link, -, htransmit⟩ := Option.bind_eq_some_iff.mp h
  exact transmit_waiting htransmit hclient hserver

theorem step_waiting {e : Event pb} (hstep : step c w e = some t) (h : Waiting c w.client ∧ Waiting c w.server) :
    Waiting c t.client ∧ Waiting c t.server := by
  cases e with
  | fetchAdd call => exact onLink_waiting hstep h.1 h.2
  | register k => exact onLink_waiting hstep h.1 h.2
  | sendRequest k => exact onLink_waiting hstep h.1 h.2
  | runDone k reply => exact onLink_waiting hstep h.1 h.2
  | complete => exact onLink_waiting hstep h.1 h.2
  | serverRead n =>
    simp only [step] at hstep
    split at hstep
    · cases hstep
      exact ⟨h.1, .of_loop (by simp [serverRead])⟩
    · cases hstep
  | serverTurn =>
    simp only [step] at hstep
    split at hstep
    · rename_i hloop
      have hturning : ∀ {buf : Buffer}, Waiting c { w.server with inputBuffer := buf } :=
        .of_loop (by simp [hloop])
      simp only [serverTurn] at hstep
      split at hstep
      · rename_i hverdict
        cases hstep
        exact ⟨h.1, fun _ _ => hverdict⟩
      · cases hstep
        exact ⟨h.1, hturning⟩
      · exact transmit_waiting hstep h.1 hturning
      · cases hstep
        exact ⟨h.1, .of_disconnected rfl⟩
    · cases hstep
  | clientRead n =>
    simp only [step] at hstep
    split at hstep
    · cases hstep
      exact ⟨.of_loop (by simp [clientRead]), h.2⟩
    · cases hstep
  | clientTurn =>
    simp only [step] at hstep
    split at hstep
    · rename_i hloop
      simp only [clientTurn] at hstep
      split at hstep
      · rename_i hverdict
        cases hstep
        exact ⟨fun _ _ => hverdict, h.2⟩
      · cases hstep
        exact ⟨.of_loop (by simp [hloop]), h.2⟩
      · exact transmit_waiting hstep (.of_loop (by simp)) h.2
      · cases hstep
        exact ⟨.of_disconnected rfl, h.2⟩
    · cases hstep
  | clientReturn =>
    simp only [step] at hstep
    split at hstep
    · cases hstep
      exact ⟨.of_loop (by simp [clientReturn]), h.2⟩
    · cases hstep
  | cutToServer n =>
    cases hstep
    exact ⟨.of_disconnected rfl, h.2⟩
  | cutToClient n =>
    cases hstep
    exact ⟨h.1, .of_disconnected rfl⟩

variable {services : Option (String → Option (List String))} {clientConn serverConn : Nat} {es : List (Event pb)}

theorem run_waiting (h : (system pb c).Run (fun _ _ => True) (initial pb services clientConn serverConn) es w) :
    Waiting c w.client ∧ Waiting c w.server := by
  refine h.invariant (I := fun w => Waiting c w.client ∧ Waiting c w.server) ?_ ?_
  · intro w t e hw _ hstep
    exact step_waiting hstep hw
  · constructor <;> exact fun _ _ => by simp [initial, RpcCodec.verdict_nil]

/-- On a connection that holds, when the threads are done, every service has run its `done`, the loops have returned and
nothing is on the way, nothing is left in the buffers and in the map, and every call with an object for its response is
completed, with its `done`. -/
theorem all_calls_completed (h : (system pb c).Run (fun _ _ => True) (initial pb services clientConn serverConn) es w)
    (hconnected : w.client.connected = true ∧ w.server.connected = true)
    (hloops : w.client.loop = .outside ∧ w.server.loop = .outside)
    (hsent : w.client.outgoing = [] ∧ w.server.outgoing = [])
    (hthreads : w.link.numbered = [] ∧ w.link.unsent = [] ∧ w.link.serving = []) :
    w.client.inputBuffer.readableSpan = [] ∧ w.server.inputBuffer.readableSpan = [] ∧
      (∀ id, w.link.client.outstandings id = none) ∧
      ∀ i call, w.link.calls[i]? = some call → call.response = true →
        i ∈ w.link.completed ∧ (call.done = true → i ∈ w.link.doneRuns) := by
  obtain ⟨s, hs, toServer, toClient, rfl, hway⟩ := simulates.run h refines_initial
  obtain ⟨es', hrun⟩ := hs
  obtain ⟨-, htokens, -, hanswered⟩ := RpcLink.Run.matched hrun
  obtain ⟨hwaitc, hwaits⟩ := run_waiting h
  obtain ⟨rfl, hserver⟩ := hway.toServer.drained hconnected.1 hsent.1 hway.serverLoop (hwaits hconnected.2 hloops.2)
  have htaken : w.client.loop.taken = 0 := by rw [hloops.1]; rfl
  obtain ⟨rfl, hclient⟩ := hway.toClient.drained hconnected.2 hsent.2 htaken (hwaitc hconnected.1 hloops.1)
  have hflight : (behind [] [] w.link).inFlight = [] := by
    simp [RpcLink.inFlight, behind, hthreads.2.1, hthreads.2.2, hway.handed]
  have hhandling : w.link.handling = none := by
    rw [← Option.not_isSome_iff_eq_none]
    intro hsome
    obtain ⟨n, hcallback⟩ := hway.handling hsome
    cases hloops.1.symm.trans hcallback
  refine ⟨hclient, hserver, ?_, ?_⟩
  · intro id
    rw [← Option.not_isSome_iff_eq_none]
    intro hsome
    have hmem := (htokens.outstanding_iff id).mp hsome
    rw [hflight] at hmem
    cases hmem
  · intro i call hcall hresponse
    exact hanswered.all_completed htokens hthreads.1 hflight hhandling hcall hresponse

end

theorem all_calls_completed_refused :
    ∃ w, (system RpcLink.rawProtobuf refusedCodec).Run (fun _ _ => True)
        (initial RpcLink.rawProtobuf RpcLink.echoServices 0 1) refusedCall w ∧
      w.client.inputBuffer.readableSpan = [] ∧ 0 ∈ w.link.completed ∧ 0 ∈ w.link.doneRuns := by
  have hreplay : ((system RpcLink.rawProtobuf refusedCodec).checked (fun _ _ => True)
      (initial RpcLink.rawProtobuf RpcLink.echoServices 0 1) refusedCall).any (fun w =>
        w.client.connected ∧ w.server.connected ∧ w.client.loop = .outside ∧ w.server.loop = .outside ∧
          w.client.outgoing = [] ∧ w.server.outgoing = [] ∧ w.link.numbered.isEmpty ∧ w.link.unsent = [] ∧
          w.link.serving.isEmpty ∧ (w.link.calls[0]?.any fun call => call.response ∧ call.done)) = true := by
    decide +kernel
  obtain ⟨w, hrun, htest⟩ := Stepper.Run.of_any hreplay
  obtain ⟨hc, hs, hcl, hsl, hco, hso, hnumbered, hunsent, hserving, hcall⟩ := of_decide_eq_true htest
  obtain ⟨call, hget, hboth⟩ := (Option.any_eq_true _ _).mp hcall
  obtain ⟨hresponse, hdone⟩ := of_decide_eq_true hboth
  obtain ⟨hinput, -, -, hcompleted⟩ := all_calls_completed hrun ⟨hc, hs⟩ ⟨hcl, hsl⟩ ⟨hco, hso⟩
    ⟨List.isEmpty_iff.mp hnumbered, hunsent, List.isEmpty_iff.mp hserving⟩
  obtain ⟨hmem, hruns⟩ := hcompleted 0 call hget hresponse
  exact ⟨w, hrun, hinput, hmem, hruns hdone⟩

end RpcWire
end Muduo
