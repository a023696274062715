import Mathlib.Data.List.Nodup
import Mathlib.Data.List.Perm.Basic
import Muduo.Lib.Simulation
import Muduo.RpcChannel

/-! # Calls and their responses

Every call has an id of its own, and the id is in one place at a time: with the thread that calls, in the request,
with the service, in the response. -/

namespace Muduo.RpcLink
open Lib RpcChannel
variable {T M : Type} {pb : Protobuf T M} {s t : RpcLink pb}

/-! ## What a step does -/

def Event.injects : Event pb → Bool
  | .inject _ => true
  | _ => false

/-- `register` for an id that is not in the map. -/
def inserted (n : NumberedCall pb) (rest : List (NumberedCall pb)) (s : RpcLink pb) : RpcLink pb :=
  { s with
    client := s.client.setOutstanding n.id (some (outstandingCall pb n.number n.call))
    numbered := rest
    unsent := requestMessage pb n.id n.call :: s.unsent
    issued := n.id :: s.issued }

/-- `clientReceive` of a response. -/
def lookedUp (message : RpcMessage) (rest : List RpcMessage) (s : RpcLink pb) : RpcLink pb :=
  { s with
    client := s.client.setOutstanding message.id none
    toClient := rest
    processed := message.id :: s.processed
    handling := some ((s.client.outstandings message.id).getD {}, message.response) }

/-- The steps of a link whose messages and map are as they should be. -/
inductive Moves (s : RpcLink pb) : Bool → RpcLink pb → Prop where
  | fetchAdd (call : RpcCall pb) : Moves s false (s.fetchAdd call)
  | register (n : NumberedCall pb) (rest : List (NumberedCall pb)) (hperm : s.numbered.Perm (n :: rest)) :
      Moves s false (s.inserted n rest)
  | sendRequest (message : RpcMessage) (rest : List RpcMessage) (hperm : s.unsent.Perm (message :: rest)) :
      Moves s false (s.sendRequest message rest)
  | refuse (message : RpcMessage) (rest : List RpcMessage) (error : RpcErrorCode) (hserver : s.toServer = message :: rest) :
      Moves s false
        ({ s with toServer := rest, received := message :: s.received }.emit (errorResponse message.id error))
  | callMethod (message : RpcMessage) (rest : List RpcMessage) (call : ServiceCall M)
      (hserver : s.toServer = message :: rest) (hcall : s.server.dispatch pb message = .ok call) :
      Moves s false
        { s with toServer := rest, received := message :: s.received, serving := call :: s.serving }
  | runDone (call : ServiceCall M) (reply : M) (rest : List (ServiceCall M)) (hperm : s.serving.Perm (call :: rest))
      (htype : pb.typeOf reply = pb.outputType call.method) : Moves s false (s.runDone call reply rest)
  | clientReceive (message : RpcMessage) (rest : List RpcMessage) (hclient : s.toClient = message :: rest)
      (hidle : s.handling = none) : Moves s false (s.lookedUp message rest)
  | drop (out : OutstandingCall T) (response : Option Bytes) (hhandling : s.handling = some (out, response))
      (hobject : out.response = none) : Moves s false { s with handling := none }
  | complete (out : OutstandingCall T) (response : Option Bytes) (object : ResponseObject T)
      (hhandling : s.handling = some (out, response)) (hobject : out.response = some object) :
      Moves s false
        { s with
          handling := none
          objects := fill pb object response s.objects
          completed := object.call :: s.completed
          doneRuns := out.done.toList ++ s.doneRuns }
  | inject (message : RpcMessage) (htype : message.type = .RESPONSE) :
      Moves s true { s with toClient := s.toClient ++ [message] }

/-- The calls have different ids, the next ones in order. -/
structure Calls (s : RpcLink pb) : Prop where
  id_eq : s.client.id = s.calls.length
  numbered : ∀ n ∈ s.numbered, n.id = n.number + 1 ∧ s.calls[n.number]? = some n.call
  numbered_nodup : (s.numbered.map (·.number)).Nodup
  issued : ∀ id ∈ s.issued, ∃ i < s.calls.length, id = i + 1 ∧ i ∉ s.numbered.map (·.number)
  issued_nodup : s.issued.Nodup

/-- What the requests and the calls of services say is what the calls say. -/
structure Messages (s : RpcLink pb) : Prop where
  requests : ∀ m ∈ s.unsent ++ s.toServer, ∃ i call, s.calls[i]? = some call ∧ m = requestMessage pb (i + 1) call
  serving : ∀ c ∈ s.serving, ∃ i call, s.calls[i]? = some call ∧ c = ⟨i + 1, call.method, call.request⟩
  responses : ∀ m ∈ s.toClient, m.type = .RESPONSE

/-- A call is neither on its way to the map nor in it. -/
def Settled (s : RpcLink pb) (i : Nat) : Prop :=
  i ∉ s.numbered.map (·.number) ∧ s.client.outstandings (i + 1) = none

/-- A call that is in the map is not completed, and one that is completed does not come back. -/
structure Completions (s : RpcLink pb) : Prop where
  outstanding : ∀ id out, s.client.outstandings id = some out →
    ∃ i call, id = i + 1 ∧ s.calls[i]? = some call ∧ out = outstandingCall pb i call ∧ i ∉ s.numbered.map (·.number)
  handling : ∀ out response object, s.handling = some (out, response) → out.response = some object →
    object.call < s.calls.length ∧ s.Settled object.call ∧ object.call ∉ s.completed ∧
      ∀ i ∈ out.done, i = object.call
  completed : ∀ i ∈ s.completed, i < s.calls.length ∧ s.Settled i
  completed_nodup : s.completed.Nodup
  doneRuns : s.doneRuns.Sublist s.completed

theorem getElem?_eraseIdx_perm {α : Type} {l : List α} {k : Nat} {x : α} (h : l[k]? = some x) :
    l.Perm (x :: l.eraseIdx k) := by
  obtain ⟨hk, rfl⟩ := List.getElem?_eq_some_iff.mp h
  exact (List.getElem_cons_eraseIdx_perm hk).symm

theorem Calls.numbered_lt (h : Calls s) {i : Nat} (hi : i ∈ s.numbered.map (·.number)) : i < s.calls.length := by
  obtain ⟨n, hn, rfl⟩ := List.mem_map.mp hi
  obtain ⟨hlt, -⟩ := List.getElem?_eq_some_iff.mp (h.numbered n hn).2
  exact hlt

/-- A call on its way to the map has an id that those past it do not have. -/
theorem Calls.id_ne (h : Calls s) {n : NumberedCall pb} {i : Nat} (hn : n ∈ s.numbered)
    (hnot : i ∉ s.numbered.map (·.number)) : n.id ≠ i + 1 := by
  intro heq
  have hnumber : n.number = i := by
    have := (h.numbered n hn).1
    omega
  exact hnot (hnumber ▸ List.mem_map_of_mem hn)

theorem moves_of_step [DecidableEq T] (hcalls : Calls s) (hmessages : Messages s) (hcompletions : Completions s) {e : Event pb}
    (h : s.step e = some t) : Moves s e.injects t := by
  cases e with
  | fetchAdd call =>
    cases h
    exact .fetchAdd call
  | register k =>
    obtain ⟨n, hn, rfl⟩ := Option.map_eq_some_iff.mp h
    have hnone : s.client.outstandings n.id = none := by
      -- What is in the map has left `numbered`.
      cases hout : s.client.outstandings n.id with
      | none => rfl
      | some out =>
        obtain ⟨i, call, hid, -, -, hnot⟩ := hcompletions.outstanding _ _ hout
        exact absurd hid (hcalls.id_ne (List.mem_of_getElem? hn) hnot)
    have hinserted : s.register n (s.numbered.eraseIdx k) = s.inserted n (s.numbered.eraseIdx k) := by
      simp [RpcLink.register, inserted, tryEmplace, hnone]
    rw [hinserted]
    exact .register n _ (getElem?_eraseIdx_perm hn)
  | sendRequest k =>
    obtain ⟨m, hm, rfl⟩ := Option.map_eq_some_iff.mp h
    exact .sendRequest m _ (getElem?_eraseIdx_perm hm)
  | serverReceive =>
    simp only [step] at h
    split at h
    · cases h
    · rename_i m rest hserver
      cases h
      obtain ⟨i, call, -, rfl⟩ := hmessages.requests m (by simp [hserver])
      have htype : (requestMessage pb (i + 1) call).type = .REQUEST := rfl
      simp only [serverReceive, onRpcMessage, ne_eq, not_true_eq_false, if_false, htype]
      cases hcall : s.server.dispatch pb (requestMessage pb (i + 1) call) with
      | ok call => exact .callMethod _ rest call hserver hcall
      | error error => exact .refuse _ rest error hserver
  | runDone k reply =>
    simp only [step] at h
    split at h
    · cases h
    · rename_i call hcall
      split at h
      · rename_i htype
        cases h
        exact .runDone call reply _ (getElem?_eraseIdx_perm hcall) htype
      · cases h
  | clientReceive =>
    simp only [step] at h
    split at h
    · rename_i m rest hhandling hclient
      cases h
      have htype := hmessages.responses m (by simp [hclient])
      simp only [clientReceive, onRpcMessage, ne_eq, not_true_eq_false, if_false, htype]
      exact .clientReceive m rest hclient hhandling
    · cases h
  | complete =>
    obtain ⟨⟨out, response⟩, hhandling, rfl⟩ := Option.map_eq_some_iff.mp h
    unfold RpcLink.complete
    cases hobject : out.response with
    | none => exact .drop out response hhandling hobject
    | some object => exact .complete out response object hhandling hobject
  | inject m =>
    simp only [step] at h
    split at h
    · rename_i htype
      cases h
      exact .inject m htype
    · cases h

/-! ## What every step keeps -/

variable {b : Bool}

theorem getElem?_concat {i : Nat} {call new : RpcCall pb} (h : s.calls[i]? = some call) :
    (s.calls ++ [new])[i]? = some call := by
  obtain ⟨hlt, -⟩ := List.getElem?_eq_some_iff.mp h
  rw [List.getElem?_append_left hlt, h]

theorem lt_fetchAdd {new : RpcCall pb} {i : Nat} (h : i < s.calls.length) : i < (s.fetchAdd new).calls.length := by
  simp only [RpcLink.fetchAdd, List.length_append]
  omega

theorem not_numbered_fetchAdd {new : RpcCall pb} {i : Nat} (hlt : i < s.calls.length)
    (h : i ∉ s.numbered.map (·.number)) : i ∉ (s.fetchAdd new).numbered.map (·.number) := by
  simp only [RpcLink.fetchAdd, List.map_cons, List.mem_cons, not_or]
  exact ⟨Nat.ne_of_lt hlt, h⟩

theorem not_mem_of_perm {n : NumberedCall pb} {rest : List (NumberedCall pb)} {i : Nat}
    (hperm : s.numbered.Perm (n :: rest)) (h : i ∉ s.numbered.map (·.number)) : i ∉ rest.map (·.number) := by
  intro hmem
  exact h ((hperm.map (·.number)).mem_iff.mpr (List.mem_cons_of_mem _ hmem))

/-- The call that goes into the map is not the others of `numbered`. -/
theorem Calls.not_mem_rest (h : Calls s) {n : NumberedCall pb} {rest : List (NumberedCall pb)}
    (hperm : s.numbered.Perm (n :: rest)) : n.number ∉ rest.map (·.number) ∧ (rest.map (·.number)).Nodup := by
  have hnodup := (hperm.map (·.number)).nodup_iff.mp h.numbered_nodup
  rw [List.map_cons, List.nodup_cons] at hnodup
  exact hnodup

theorem Calls.moves (h : Calls s) (hmove : Moves s b t) : Calls t := by
  cases hmove with
  | fetchAdd call =>
    have hnew : s.calls.length ∉ s.numbered.map (·.number) := by
      intro hmem
      exact absurd (h.numbered_lt hmem) (Nat.lt_irrefl _)
    refine ⟨?_, ?_, List.nodup_cons.mpr ⟨hnew, h.numbered_nodup⟩, ?_, h.issued_nodup⟩
    · simp [RpcLink.fetchAdd, h.id_eq]
    · intro n hn
      rcases List.mem_cons.mp hn with rfl | hn
      · simp [RpcLink.fetchAdd, h.id_eq]
      · obtain ⟨hid, hcall⟩ := h.numbered n hn
        exact ⟨hid, getElem?_concat hcall⟩
    · intro id hid
      obtain ⟨i, hlt, rfl, hnot⟩ := h.issued id hid
      exact ⟨i, lt_fetchAdd hlt, rfl, not_numbered_fetchAdd hlt hnot⟩
  | register n rest hperm =>
    have hmem : ∀ {m}, m ∈ rest → m ∈ s.numbered := fun hm => hperm.mem_iff.mpr (List.mem_cons_of_mem _ hm)
    have hn : n ∈ s.numbered := hperm.mem_iff.mpr List.mem_cons_self
    obtain ⟨hnot, hnodup⟩ := h.not_mem_rest hperm
    refine ⟨h.id_eq, fun m hm => h.numbered m (hmem hm), hnodup, ?_, List.nodup_cons.mpr ⟨?_, h.issued_nodup⟩⟩
    · intro id hid
      rcases List.mem_cons.mp hid with rfl | hid
      · exact ⟨n.number, h.numbered_lt (List.mem_map_of_mem hn), (h.numbered n hn).1, hnot⟩
      · obtain ⟨i, hi, rfl, hnoti⟩ := h.issued id hid
        exact ⟨i, hi, rfl, not_mem_of_perm hperm hnoti⟩
    · intro hid
      obtain ⟨i, -, heq, hnoti⟩ := h.issued _ hid
      exact h.id_ne hn hnoti heq
  | _ => exact ⟨h.id_eq, h.numbered, h.numbered_nodup, h.issued, h.issued_nodup⟩

theorem dispatch_eq_ok {c : RpcChannel T} {m : RpcMessage} {served : ServiceCall M}
    (h : c.dispatch pb m = .ok served) :
    served = ⟨m.id, ⟨m.service.getD "", m.method.getD ""⟩,
      (pb.parseFromString (pb.inputType ⟨m.service.getD "", m.method.getD ""⟩) (m.request.getD [])).2⟩ := by
  unfold dispatch at h
  split at h
  · cases h
  · split at h
    · cases h
    · dsimp only at h
      split at h
      · split at h
        · cases h
          rfl
        · cases h
      · cases h

/-- The service is called for the request as it was made. -/
theorem dispatch_requestMessage {c : RpcChannel T} {id : Nat} {call : RpcCall pb} {served : ServiceCall M}
    (h : c.dispatch pb (requestMessage pb id call) = .ok served) : served = ⟨id, call.method, call.request⟩ := by
  have hparse := pb.parse_serialize call.request
  rw [call.request_type] at hparse
  rw [dispatch_eq_ok h]
  exact congrArg (ServiceCall.mk id call.method) hparse

theorem Messages.moves (hcalls : Calls s) (h : Messages s) (hmove : Moves s b t) : Messages t := by
  cases hmove with
  | fetchAdd new =>
    refine ⟨?_, ?_, h.responses⟩
    · intro m hm
      obtain ⟨i, call, hcall, hmsg⟩ := h.requests m hm
      exact ⟨i, call, getElem?_concat hcall, hmsg⟩
    · intro c hc
      obtain ⟨i, call, hcall, heq⟩ := h.serving c hc
      exact ⟨i, call, getElem?_concat hcall, heq⟩
  | register n rest hperm =>
    obtain ⟨hid, hcall⟩ := hcalls.numbered n (hperm.mem_iff.mpr List.mem_cons_self)
    refine ⟨List.forall_mem_cons.mpr ⟨?_, h.requests⟩, h.serving, h.responses⟩
    exact ⟨n.number, n.call, hcall, by rw [hid]⟩
  | sendRequest m rest hperm =>
    refine ⟨?_, h.serving, h.responses⟩
    intro m' hm'
    refine h.requests m' ?_
    simp only [RpcLink.sendRequest, List.mem_append, hperm.mem_iff, List.mem_cons] at hm' ⊢
    tauto
  | refuse m rest error hserver =>
    refine ⟨?_, h.serving, List.forall_mem_append.mpr ⟨h.responses, List.forall_mem_singleton.mpr rfl⟩⟩
    intro m' hm'
    refine h.requests m' ?_
    simp only [emit, List.mem_append, hserver, List.mem_cons] at hm' ⊢
    tauto
  | callMethod m rest served hserver hserved =>
    obtain ⟨i, call, hcall, rfl⟩ := h.requests m (by simp [hserver])
    refine ⟨?_, List.forall_mem_cons.mpr ⟨⟨i, call, hcall, dispatch_requestMessage hserved⟩, h.serving⟩, h.responses⟩
    intro m' hm'
    refine h.requests m' ?_
    simp only [List.mem_append, hserver, List.mem_cons] at hm' ⊢
    tauto
  | runDone call reply rest hperm _ =>
    refine ⟨h.requests, ?_, List.forall_mem_append.mpr ⟨h.responses, List.forall_mem_singleton.mpr rfl⟩⟩
    intro c hc
    exact h.serving c (hperm.mem_iff.mpr (List.mem_cons_of_mem _ hc))
  | clientReceive m rest hclient =>
    refine ⟨h.requests, h.serving, ?_⟩
    intro m' hm'
    exact h.responses m' (hclient ▸ List.mem_cons_of_mem _ hm')
  | inject m htype =>
    exact ⟨h.requests, h.serving, List.forall_mem_append.mpr ⟨h.responses, List.forall_mem_singleton.mpr htype⟩⟩
  | _ => exact ⟨h.requests, h.serving, h.responses⟩

theorem outstandingCall_response {i : Nat} {call : RpcCall pb} {object : ResponseObject T}
    (h : (outstandingCall pb i call).response = some object) : object = ⟨i, pb.outputType call.method⟩ := by
  simp only [outstandingCall] at h
  split at h
  · exact (Option.some.inj h).symm
  · cases h

theorem outstandingCall_done {i j : Nat} {call : RpcCall pb} (h : j ∈ (outstandingCall pb i call).done) : j = i := by
  simp only [outstandingCall, Option.mem_def] at h
  split at h
  · exact (Option.some.inj h).symm
  · cases h

/-- What a response takes out of the map, if it has an object, is the call with its id. -/
theorem Completions.taken (h : Completions s) {id : Nat} {object : ResponseObject T}
    (hobject : ((s.client.outstandings id).getD {}).response = some object) :
    ∃ call, id = object.call + 1 ∧ s.calls[object.call]? = some call ∧ object.type = pb.outputType call.method ∧
      object.call ∉ s.numbered.map (·.number) ∧ (s.client.outstandings id).isSome ∧
      ∀ i ∈ ((s.client.outstandings id).getD {}).done, i = object.call := by
  cases hout : s.client.outstandings id with
  | none =>
    rw [hout] at hobject
    cases hobject
  | some out =>
    rw [hout, Option.getD_some] at hobject
    obtain ⟨i, call, hid, hcall, rfl, hnot⟩ := h.outstanding id out hout
    cases outstandingCall_response hobject
    exact ⟨call, hid, hcall, rfl, hnot, rfl, fun j hj => outstandingCall_done hj⟩

/-- A settled call is not the one that goes into the map. -/
theorem Settled.inserted {n : NumberedCall pb} {rest : List (NumberedCall pb)} {i : Nat} (hcalls : Calls s)
    (hperm : s.numbered.Perm (n :: rest)) (h : s.Settled i) : (s.inserted n rest).Settled i := by
  obtain ⟨hnot, hnone⟩ := h
  have hne := hcalls.id_ne (hperm.mem_iff.mpr List.mem_cons_self) hnot
  exact ⟨not_mem_of_perm hperm hnot, (outstandings_setOutstanding_of_ne hne.symm).trans hnone⟩

theorem Settled.lookedUp {m : RpcMessage} {rest : List RpcMessage} {i : Nat} (h : s.Settled i) :
    (s.lookedUp m rest).Settled i := by
  obtain ⟨hnot, hnone⟩ := h
  refine ⟨hnot, ?_⟩
  by_cases heq : i + 1 = m.id
  · rw [heq]
    exact outstandings_setOutstanding
  · exact (outstandings_setOutstanding_of_ne heq).trans hnone

theorem Completions.fetchAdd (h : Completions s) (new : RpcCall pb) : Completions (s.fetchAdd new) := by
  refine ⟨?_, ?_, ?_, h.completed_nodup, h.doneRuns⟩
  · intro id out hout
    obtain ⟨i, call, hid, hcall, heq, hnot⟩ := h.outstanding id out hout
    obtain ⟨hlt, -⟩ := List.getElem?_eq_some_iff.mp hcall
    exact ⟨i, call, hid, getElem?_concat hcall, heq, not_numbered_fetchAdd hlt hnot⟩
  · intro out response object hhandling hobject
    obtain ⟨hlt, ⟨hnot, hnone⟩, hnew, hdone⟩ := h.handling out response object hhandling hobject
    exact ⟨lt_fetchAdd hlt, ⟨not_numbered_fetchAdd hlt hnot, hnone⟩, hnew, hdone⟩
  · intro i hi
    obtain ⟨hlt, hnot, hnone⟩ := h.completed i hi
    exact ⟨lt_fetchAdd hlt, not_numbered_fetchAdd hlt hnot, hnone⟩

theorem Completions.inserted (hcalls : Calls s) (h : Completions s) {n : NumberedCall pb} {rest : List (NumberedCall pb)}
    (hperm : s.numbered.Perm (n :: rest)) : Completions (s.inserted n rest) := by
  obtain ⟨hid, hcall⟩ := hcalls.numbered n (hperm.mem_iff.mpr List.mem_cons_self)
  refine ⟨?_, ?_, ?_, h.completed_nodup, h.doneRuns⟩
  · intro id out hout
    by_cases heq : id = n.id
    · subst heq
      have hnew : some (outstandingCall pb n.number n.call) = some out := outstandings_setOutstanding.symm.trans hout
      cases hnew
      exact ⟨n.number, n.call, hid, hcall, rfl, (hcalls.not_mem_rest hperm).1⟩
    · obtain ⟨i, call, hi, hcalli, hcases, hnot⟩ :=
        h.outstanding id out ((outstandings_setOutstanding_of_ne heq).symm.trans hout)
      exact ⟨i, call, hi, hcalli, hcases, not_mem_of_perm hperm hnot⟩
  · intro out response object hhandling hobject
    obtain ⟨hlt, hsettled, hnew, hdone⟩ := h.handling out response object hhandling hobject
    exact ⟨hlt, hsettled.inserted hcalls hperm, hnew, hdone⟩
  · intro i hi
    obtain ⟨hlt, hsettled⟩ := h.completed i hi
    exact ⟨hlt, hsettled.inserted hcalls hperm⟩

theorem Completions.lookedUp (h : Completions s) (m : RpcMessage) (rest : List RpcMessage) :
    Completions (s.lookedUp m rest) := by
  refine ⟨?_, ?_, ?_, h.completed_nodup, h.doneRuns⟩
  · intro id out hout
    by_cases heq : id = m.id
    · subst heq
      have hnone : none = some out := outstandings_setOutstanding.symm.trans hout
      cases hnone
    · exact h.outstanding id out ((outstandings_setOutstanding_of_ne heq).symm.trans hout)
  · intro out response object hhandling hobject
    cases hhandling
    obtain ⟨call, hid, hcall, -, hnot, hsome, hdone⟩ := h.taken hobject
    obtain ⟨hlt, -⟩ := List.getElem?_eq_some_iff.mp hcall
    refine ⟨hlt, ⟨hnot, hid ▸ outstandings_setOutstanding⟩, ?_, hdone⟩
    -- A completed call is not in the map any more.
    intro hcompleted
    rw [hid, (h.completed _ hcompleted).2.2] at hsome
    cases hsome
  · intro i hi
    obtain ⟨hlt, hsettled⟩ := h.completed i hi
    exact ⟨hlt, hsettled.lookedUp⟩

theorem Completions.moves (hcalls : Calls s) (h : Completions s) (hmove : Moves s b t) : Completions t := by
  cases hmove with
  | fetchAdd new => exact h.fetchAdd new
  | register n rest hperm => exact h.inserted hcalls hperm
  | clientReceive m rest _ => exact h.lookedUp m rest
  | drop => exact ⟨h.outstanding, by simp, h.completed, h.completed_nodup, h.doneRuns⟩
  | complete out response object hhandling hobject =>
    obtain ⟨hlt, hsettled, hnew, hdone⟩ := h.handling out response object hhandling hobject
    refine ⟨h.outstanding, by simp, List.forall_mem_cons.mpr ⟨⟨hlt, hsettled⟩, h.completed⟩,
      List.nodup_cons.mpr ⟨hnew, h.completed_nodup⟩, ?_⟩
    cases hrun : out.done with
    | none => exact h.doneRuns.cons _
    | some i =>
      cases hdone i hrun
      exact h.doneRuns.cons_cons _
  | _ => exact ⟨h.outstanding, h.handling, h.completed, h.completed_nodup, h.doneRuns⟩

/-- Every request that the server has received has one response, or is with its service. -/
structure Served (s : RpcLink pb) : Prop where
  perm : (s.received.map (·.id)).Perm (s.emitted.map (·.id) ++ s.serving.map (·.id))
  received : ∀ m ∈ s.received, m.type = .REQUEST
  emitted : ∀ m ∈ s.emitted, m.type = .RESPONSE

theorem Served.moves (hmessages : Messages s) (h : Served s) (hmove : Moves s b t) : Served t := by
  have hrequest : ∀ {m rest}, s.toServer = m :: rest → ∀ m' ∈ m :: s.received, m'.type = .REQUEST := by
    intro m rest hserver
    obtain ⟨i, call, -, rfl⟩ := hmessages.requests m (by simp [hserver])
    exact List.forall_mem_cons.mpr ⟨rfl, h.received⟩
  cases hmove with
  | refuse m rest error hserver =>
    exact ⟨h.perm.cons m.id, hrequest hserver, List.forall_mem_cons.mpr ⟨rfl, h.emitted⟩⟩
  | callMethod m rest call hserver hcall =>
    refine ⟨?_, hrequest hserver, h.emitted⟩
    rw [dispatch_eq_ok hcall]
    exact (h.perm.cons m.id).trans List.perm_middle.symm
  | runDone call reply rest hperm _ =>
    refine ⟨?_, h.received, List.forall_mem_cons.mpr ⟨rfl, h.emitted⟩⟩
    have hserving : (s.serving.map (·.id)).Perm (call.id :: rest.map (·.id)) := hperm.map (·.id)
    exact h.perm.trans ((hserving.append_left _).trans List.perm_middle)
  | _ => exact ⟨h.perm, h.received, h.emitted⟩

/-! ## Without injected responses -/

/-- The ids of the requests, the calls of services and the responses on their way. -/
def inFlight (s : RpcLink pb) : List Nat :=
  s.unsent.map (·.id) ++ (s.toServer.map (·.id) ++ (s.serving.map (·.id) ++ s.toClient.map (·.id)))

/-- Every id in the map so far is on its way or processed, once, and the map has the ids on their way. -/
structure Tokens (s : RpcLink pb) : Prop where
  perm : (s.inFlight ++ s.processed).Perm s.issued
  outstanding_iff : ∀ id, (s.client.outstandings id).isSome ↔ id ∈ s.inFlight

theorem Tokens.of_inFlight (h : Tokens s) (hperm : t.inFlight.Perm s.inFlight) (hclient : t.client = s.client)
    (hprocessed : t.processed = s.processed) (hissued : t.issued = s.issued) : Tokens t := by
  constructor
  · rw [hprocessed, hissued]
    exact (hperm.append_right _).trans h.perm
  · intro id
    rw [hclient, h.outstanding_iff, hperm.mem_iff]

theorem Tokens.nodup (h : Tokens s) (hcalls : Calls s) : (s.inFlight ++ s.processed).Nodup :=
  h.perm.nodup_iff.mpr hcalls.issued_nodup

/-- The id of the response goes from the ones on their way to the processed ones. -/
theorem Tokens.lookedUp (hcalls : Calls s) (h : Tokens s) {m : RpcMessage} {rest : List RpcMessage}
    (hclient : s.toClient = m :: rest) : Tokens (s.lookedUp m rest) := by
  have hperm : s.inFlight.Perm (m.id :: (s.lookedUp m rest).inFlight) := by
    rw [List.perm_iff_count]
    intro id
    simp only [inFlight, RpcLink.lookedUp, hclient, List.map_cons, List.count_append, List.count_cons]
    omega
  have hnodup := hperm.nodup_iff.mp (List.nodup_append.mp (h.nodup hcalls)).1
  constructor
  · exact (List.perm_middle.trans (hperm.symm.append_right s.processed)).trans h.perm
  · intro id
    by_cases heq : id = m.id
    · have hnone : (s.lookedUp m rest).client.outstandings m.id = none := outstandings_setOutstanding
      rw [heq, hnone]
      exact ⟨fun hsome => absurd hsome Bool.false_ne_true, fun hmem => absurd hmem (List.nodup_cons.mp hnodup).1⟩
    · have hsame : (s.lookedUp m rest).client.outstandings id = s.client.outstandings id :=
        outstandings_setOutstanding_of_ne heq
      rw [hsame, h.outstanding_iff, hperm.mem_iff, List.mem_cons, or_iff_right heq]

theorem Tokens.moves (hcalls : Calls s) (h : Tokens s) (hmove : Moves s false t) : Tokens t := by
  cases hmove with
  | fetchAdd call => exact ⟨h.perm, h.outstanding_iff⟩
  | register n rest hperm =>
    refine ⟨h.perm.cons n.id, ?_⟩
    intro id
    have hmem : id ∈ (s.inserted n rest).inFlight ↔ id = n.id ∨ id ∈ s.inFlight := List.mem_cons
    rw [hmem]
    by_cases heq : id = n.id
    · simp [heq, inserted]
    · have hsame : (s.inserted n rest).client.outstandings id = s.client.outstandings id :=
        outstandings_setOutstanding_of_ne heq
      rw [hsame, h.outstanding_iff, or_iff_right heq]
  | sendRequest m rest hperm =>
    refine h.of_inFlight ?_ rfl rfl rfl
    have hids : (s.unsent.map (·.id)).Perm (m.id :: rest.map (·.id)) := hperm.map (·.id)
    rw [List.perm_iff_count] at hids ⊢
    intro id
    have := hids id
    simp only [inFlight, RpcLink.sendRequest, List.map_append, List.map_cons, List.map_nil, List.count_append,
      List.count_cons, List.count_nil] at this ⊢
    omega
  | refuse m rest error hserver =>
    refine h.of_inFlight ?_ rfl rfl rfl
    rw [List.perm_iff_count]
    intro id
    simp only [inFlight, emit, errorResponse, hserver, List.map_append, List.map_cons, List.map_nil, List.count_append,
      List.count_cons, List.count_nil]
    omega
  | callMethod m rest call hserver hcall =>
    have hid : call.id = m.id := by rw [dispatch_eq_ok hcall]
    refine h.of_inFlight ?_ rfl rfl rfl
    rw [List.perm_iff_count]
    intro id
    simp only [inFlight, hserver, hid, List.map_cons, List.count_append, List.count_cons]
    omega
  | runDone call reply rest hperm _ =>
    refine h.of_inFlight ?_ rfl rfl rfl
    have hids : (s.serving.map (·.id)).Perm (call.id :: rest.map (·.id)) := hperm.map (·.id)
    rw [List.perm_iff_count] at hids ⊢
    intro id
    have := hids id
    simp only [inFlight, RpcLink.runDone, emit, doneResponse, List.map_append, List.map_cons, List.map_nil,
      List.count_append, List.count_cons, List.count_nil] at this ⊢
    omega
  | clientReceive m rest hclient => exact h.lookedUp hcalls hclient
  | drop => exact ⟨h.perm, h.outstanding_iff⟩
  | complete => exact ⟨h.perm, h.outstanding_iff⟩

/-- A response with the id carries the answer to the call, if there is one. -/
def Carries (s : RpcLink pb) (id : Nat) (response : Option Bytes) : Prop :=
  ∀ bytes, response = some bytes ↔ ∃ a ∈ s.answers, a.id = id ∧ pb.serializeAsString a.reply = bytes

/-- What the responses and the objects hold is what the services have answered. -/
structure Contents (s : RpcLink pb) : Prop where
  answers : ∀ a ∈ s.answers, ∃ i call, s.calls[i]? = some call ∧
    a.toServiceCall = ⟨i + 1, call.method, call.request⟩ ∧ pb.typeOf a.reply = pb.outputType call.method
  answered : ∀ a ∈ s.answers, a.id ∈ s.toClient.map (·.id) ++ s.processed
  responses : ∀ m ∈ s.toClient, s.Carries m.id m.response
  handling : ∀ out response object, s.handling = some (out, response) → out.response = some object →
    object.call + 1 ∈ s.processed ∧ s.Carries (object.call + 1) response ∧
      ∃ call, s.calls[object.call]? = some call ∧ object.type = pb.outputType call.method
  objects : ∀ i, i ∉ s.completed → s.objects i = none
  completed : ∀ i ∈ s.completed, i + 1 ∈ s.processed ∧
    ∀ m, s.objects i = some m ↔ ∃ a ∈ s.answers, a.id = i + 1 ∧ a.reply = m

/-- A new answer says nothing of another id. -/
theorem exists_answer_cons {a : RpcAnswer M} {answers : List (RpcAnswer M)} {id : Nat} {P : RpcAnswer M → Prop}
    (hne : a.id ≠ id) : (∃ a' ∈ a :: answers, a'.id = id ∧ P a') ↔ ∃ a' ∈ answers, a'.id = id ∧ P a' := by
  simp [hne]

/-- An id that is in a request or with a service is not in a response yet. -/
theorem Tokens.not_answered (htokens : Tokens s) (hcalls : Calls s) {id : Nat}
    (hid : id ∈ s.toServer.map (·.id) ++ s.serving.map (·.id)) : id ∉ s.toClient.map (·.id) ++ s.processed := by
  have hnodup := htokens.nodup hcalls
  simp only [inFlight, List.append_assoc] at hnodup
  rw [← List.append_assoc (s.toServer.map _)] at hnodup
  intro hmem
  exact (List.nodup_append.mp (List.nodup_append.mp hnodup).2.1).2.2 id hid id hmem rfl

theorem Carries.none_of_not_answered (h : Contents s) {id : Nat} (hid : id ∉ s.toClient.map (·.id) ++ s.processed) :
    s.Carries id none := by
  intro bytes
  constructor
  · intro hsome
    cases hsome
  · rintro ⟨a, ha, rfl, -⟩
    exact absurd (h.answered a ha) hid

theorem Carries.runDone {id : Nat} {response : Option Bytes} (h : s.Carries id response) {call : ServiceCall M}
    {reply : M} {rest : List (ServiceCall M)} (hne : call.id ≠ id) : (s.runDone call reply rest).Carries id response := by
  intro bytes
  rw [h bytes]
  exact (exists_answer_cons hne).symm

theorem Contents.runDone (hcalls : Calls s) (hmessages : Messages s) (htokens : Tokens s) (h : Contents s)
    {call : ServiceCall M} {reply : M} {rest : List (ServiceCall M)} (hperm : s.serving.Perm (call :: rest))
    (htype : pb.typeOf reply = pb.outputType call.method) : Contents (s.runDone call reply rest) := by
  have hserving : call ∈ s.serving := hperm.mem_iff.mpr List.mem_cons_self
  have hnot := htokens.not_answered hcalls (List.mem_append_right _ (List.mem_map_of_mem hserving))
  have hclient : ∀ m ∈ s.toClient, call.id ≠ m.id := by
    intro m hm heq
    exact hnot (List.mem_append_left _ (heq ▸ List.mem_map_of_mem hm))
  have hprocessed : ∀ id ∈ s.processed, call.id ≠ id := by
    rintro id hid rfl
    exact hnot (List.mem_append_right _ hid)
  refine ⟨?_, ?_, ?_, ?_, h.objects, ?_⟩
  · intro a ha
    rcases List.mem_cons.mp ha with rfl | ha
    · obtain ⟨i, c, hcall, rfl⟩ := hmessages.serving call hserving
      exact ⟨i, c, hcall, rfl, htype⟩
    · exact h.answers a ha
  · intro a ha
    rcases List.mem_cons.mp ha with rfl | ha
    · simp [RpcLink.runDone, emit, doneResponse]
    · have hmem := h.answered a ha
      simp only [RpcLink.runDone, emit, List.map_append, List.mem_append] at hmem ⊢
      tauto
  · intro m hm
    rcases List.mem_append.mp hm with hm | hm
    · exact (h.responses m hm).runDone (hclient m hm)
    · rw [List.mem_singleton.mp hm]
      intro bytes
      constructor
      · intro heq
        exact ⟨⟨call, reply⟩, List.mem_cons_self, rfl, Option.some.inj heq⟩
      · rintro ⟨a, ha, hid, heq⟩
        rcases List.mem_cons.mp ha with rfl | ha
        · exact congrArg some heq
        · have hid' : a.id = call.id := hid
          exact absurd (hid' ▸ h.answered a ha) hnot
  · intro out response object hhandling hobject
    obtain ⟨hmem, hcarries, hcall⟩ := h.handling out response object hhandling hobject
    exact ⟨hmem, hcarries.runDone (hprocessed _ hmem), hcall⟩
  · intro i hi
    obtain ⟨hmem, hiff⟩ := h.completed i hi
    refine ⟨hmem, ?_⟩
    intro m
    exact (hiff m).trans (exists_answer_cons (hprocessed _ hmem)).symm

theorem Contents.lookedUp (hcompletions : Completions s) (h : Contents s) {m : RpcMessage} {rest : List RpcMessage}
    (hclient : s.toClient = m :: rest) : Contents (s.lookedUp m rest) := by
  refine ⟨h.answers, ?_, ?_, ?_, h.objects, ?_⟩
  · intro a ha
    have hmem := h.answered a ha
    simp only [RpcLink.lookedUp, hclient, List.map_cons, List.cons_append, List.mem_cons, List.mem_append] at hmem ⊢
    tauto
  · intro m' hm'
    exact h.responses m' (hclient ▸ List.mem_cons_of_mem _ hm')
  · intro out response object hhandling hobject
    cases hhandling
    obtain ⟨call, hid, hcall, htype, -, -, -⟩ := hcompletions.taken hobject
    have hcarries := h.responses m (hclient ▸ List.mem_cons_self)
    rw [hid] at hcarries
    exact ⟨hid ▸ List.mem_cons_self, hcarries, call, hcall, htype⟩
  · intro i hi
    obtain ⟨hmem, hiff⟩ := h.completed i hi
    exact ⟨List.mem_cons_of_mem _ hmem, hiff⟩

/-- The object of the call holds the answer, if there is one. -/
theorem Contents.fill_iff (h : Contents s) {object : ResponseObject T} {response : Option Bytes} {call : RpcCall pb}
    (hcall : s.calls[object.call]? = some call) (htype : object.type = pb.outputType call.method)
    (hcarries : s.Carries (object.call + 1) response) (hnone : s.objects object.call = none) (m : M) :
    fill pb object response s.objects object.call = some m ↔
      ∃ a ∈ s.answers, a.id = object.call + 1 ∧ a.reply = m := by
  -- Parsing what is serialized gives the reply back, as the object is of its type.
  have hparse : ∀ a ∈ s.answers, a.id = object.call + 1 →
      (pb.parseFromString object.type (pb.serializeAsString a.reply)).2 = a.reply := by
    intro a ha hid
    obtain ⟨i, call', hcall', heq, hreply⟩ := h.answers a ha
    have hi : i = object.call := by
      have := congrArg ServiceCall.id heq
      simp only at this
      omega
    rw [hi, hcall] at hcall'
    cases hcall'
    rw [htype, ← hreply]
    exact pb.parse_serialize a.reply
  cases response with
  | none =>
    simp only [fill, hnone]
    constructor
    · intro hsome
      cases hsome
    · rintro ⟨a, ha, hid, -⟩
      cases (hcarries _).mpr ⟨a, ha, hid, rfl⟩
  | some bytes =>
    simp only [fill, if_true, Option.some.injEq]
    constructor
    · rintro rfl
      obtain ⟨a, ha, hid, rfl⟩ := (hcarries bytes).mp rfl
      exact ⟨a, ha, hid, (hparse a ha hid).symm⟩
    · rintro ⟨a, ha, hid, rfl⟩
      cases (hcarries _).mpr ⟨a, ha, hid, rfl⟩
      exact hparse a ha hid

theorem fill_other {object : ResponseObject T} {response : Option Bytes} {objects : Nat → Option M} {i : Nat}
    (hne : i ≠ object.call) : fill pb object response objects i = objects i := by
  cases response with
  | none => rfl
  | some bytes => exact if_neg hne

theorem Contents.moves (hcalls : Calls s) (hmessages : Messages s) (hcompletions : Completions s) (htokens : Tokens s)
    (h : Contents s) (hmove : Moves s false t) : Contents t := by
  cases hmove with
  | fetchAdd new =>
    refine ⟨?_, h.answered, h.responses, ?_, h.objects, h.completed⟩
    · intro a ha
      obtain ⟨i, call, hcall, hrest⟩ := h.answers a ha
      exact ⟨i, call, getElem?_concat hcall, hrest⟩
    · intro out response object hhandling hobject
      obtain ⟨hmem, hcarries, call, hcall, htype⟩ := h.handling out response object hhandling hobject
      exact ⟨hmem, hcarries, call, getElem?_concat hcall, htype⟩
  | refuse m rest error hserver =>
    have hmem : m.id ∈ s.toServer.map (·.id) ++ s.serving.map (·.id) := by simp [hserver]
    have hnot := htokens.not_answered hcalls hmem
    refine ⟨h.answers, ?_, ?_, h.handling, h.objects, h.completed⟩
    · intro a ha
      have hmem := h.answered a ha
      simp only [emit, List.map_append, List.mem_append] at hmem ⊢
      tauto
    · intro m' hm'
      rcases List.mem_append.mp hm' with hm' | hm'
      · exact h.responses m' hm'
      · rw [List.mem_singleton.mp hm']
        exact Carries.none_of_not_answered h hnot
  | runDone call reply rest hperm htype => exact h.runDone hcalls hmessages htokens hperm htype
  | clientReceive m rest hclient => exact h.lookedUp hcompletions hclient
  | drop => exact ⟨h.answers, h.answered, h.responses, by simp, h.objects, h.completed⟩
  | complete out response object hhandling hobject =>
    obtain ⟨hmem, hcarries, call, hcall, htype⟩ := h.handling out response object hhandling hobject
    obtain ⟨-, -, hnew, -⟩ := hcompletions.handling out response object hhandling hobject
    refine ⟨h.answers, h.answered, h.responses, by simp, ?_, ?_⟩
    · intro i hi
      rw [List.mem_cons, not_or] at hi
      exact (fill_other hi.1).trans (h.objects i hi.2)
    · intro i hi
      rcases List.mem_cons.mp hi with rfl | hi
      · exact ⟨hmem, h.fill_iff hcall htype hcarries (h.objects _ hnew)⟩
      · obtain ⟨hprocessed, hiff⟩ := h.completed i hi
        have hne : i ≠ object.call := by
          rintro rfl
          exact hnew hi
        refine ⟨hprocessed, ?_⟩
        intro m
        exact (iff_of_eq (congrArg (· = some m) (fill_other hne))).trans (hiff m)
  | _ => exact ⟨h.answers, h.answered, h.responses, h.handling, h.objects, h.completed⟩

/-- The object of a call holds what the service has answered, from the time the response is handled. -/
theorem Contents.object_iff (h : Contents s) {i : Nat} {call : RpcCall pb} (hcall : s.calls[i]? = some call) (m : M) :
    s.objects i = some m ↔
      i ∈ s.completed ∧ (⟨⟨i + 1, call.method, call.request⟩, m⟩ : RpcAnswer M) ∈ s.answers := by
  constructor
  · intro hobject
    have hi : i ∈ s.completed := by
      by_contra hnot
      cases (h.objects i hnot).symm.trans hobject
    obtain ⟨a, ha, hid, rfl⟩ := ((h.completed i hi).2 m).mp hobject
    obtain ⟨j, call', hcall', heq, -⟩ := h.answers a ha
    have hj : j = i := by
      rw [heq] at hid
      exact Nat.succ.inj hid
    subst hj
    cases hcall.symm.trans hcall'
    exact ⟨hi, heq ▸ ha⟩
  · rintro ⟨hi, ha⟩
    exact ((h.completed i hi).2 m).mpr ⟨_, ha, rfl, rfl⟩

/-! ## Runs -/

structure Inv (s : RpcLink pb) : Prop where
  calls : Calls s
  messages : Messages s
  completions : Completions s
  served : Served s
  /-- `assert(inserted)` has not failed. -/
  inserted : s.failed = 0

theorem Inv.moves (h : Inv s) (hmove : Moves s b t) : Inv t := by
  have hfailed : t.failed = s.failed := by cases hmove <;> rfl
  exact ⟨h.calls.moves hmove, h.messages.moves h.calls hmove, h.completions.moves h.calls hmove,
    h.served.moves h.messages hmove, hfailed.trans h.inserted⟩

/-! ## Responses are handled -/

/-- The client is between the two parts of `onRpcMessage` for the call. -/
def Handling (s : RpcLink pb) (i : Nat) (call : RpcCall pb) : Prop :=
  ∃ response, s.handling = some (outstandingCall pb i call, response)

/-- Every call is on its way to the map or has come there, and one whose response has been looked up is being
completed or is complete. -/
structure Answered (s : RpcLink pb) : Prop where
  registered : ∀ i < s.calls.length, i ∈ s.numbered.map (·.number) ∨ i + 1 ∈ s.issued
  handled : ∀ i call, s.calls[i]? = some call → call.response = true → i + 1 ∈ s.processed →
    s.Handling i call ∨
      i ∈ s.completed ∧ (call.done = true → i ∈ s.doneRuns)

theorem Answered.of_same (h : Answered s) (hcalls : t.calls = s.calls) (hnumbered : t.numbered = s.numbered)
    (hissued : t.issued = s.issued) (hprocessed : t.processed = s.processed) (hhandling : t.handling = s.handling)
    (hcompleted : t.completed = s.completed) (hdone : t.doneRuns = s.doneRuns) : Answered t := by
  constructor
  · rw [hcalls, hnumbered, hissued]
    exact h.registered
  · simp only [Handling, hcalls, hprocessed, hhandling, hcompleted, hdone]
    exact h.handled

theorem Answered.fetchAdd (hcalls : Calls s) (htokens : Tokens s) (h : Answered s) (new : RpcCall pb) :
    Answered (s.fetchAdd new) := by
  constructor
  · intro i hi
    have hlen : i < s.calls.length + 1 := by simpa [RpcLink.fetchAdd] using hi
    rcases Nat.lt_succ_iff_lt_or_eq.mp hlen with hlt | rfl
    · exact (h.registered i hlt).imp (List.mem_cons_of_mem _) id
    · exact .inl List.mem_cons_self
  · intro i call hcall hresponse hprocessed
    -- An id that has been processed belongs to a call made before.
    have hissued : i + 1 ∈ s.issued := htokens.perm.mem_iff.mp (List.mem_append_right _ hprocessed)
    obtain ⟨j, hj, heq, -⟩ := hcalls.issued _ hissued
    cases Nat.succ.inj heq
    have hold : s.calls[i]? = some call := by rwa [← List.getElem?_append_left hj]
    exact h.handled i call hold hresponse hprocessed

theorem Answered.register (hcalls : Calls s) (h : Answered s) {n : NumberedCall pb} {rest : List (NumberedCall pb)}
    (hperm : s.numbered.Perm (n :: rest)) : Answered (s.inserted n rest) := by
  refine ⟨?_, h.handled⟩
  intro i hi
  rcases h.registered i hi with hnumbered | hissued
  · rcases List.mem_cons.mp ((hperm.map (·.number)).mem_iff.mp hnumbered) with rfl | hrest
    · right
      rw [← (hcalls.numbered n (hperm.mem_iff.mpr List.mem_cons_self)).1]
      exact List.mem_cons_self
    · exact .inl hrest
  · exact .inr (List.mem_cons_of_mem _ hissued)

theorem Answered.clientReceive (hinv : Inv s) (htokens : Tokens s) (h : Answered s) (hidle : s.handling = none)
    {m : RpcMessage} {rest : List RpcMessage} (hclient : s.toClient = m :: rest) :
    Answered (s.lookedUp m rest) := by
  refine ⟨h.registered, ?_⟩
  intro i call hcall hresponse hprocessed
  rcases List.mem_cons.mp hprocessed with hid | hold
  · -- The id was on its way, so its call is in the map.
    have hflight : m.id ∈ s.inFlight := by simp [inFlight, hclient]
    obtain ⟨out, hout⟩ := Option.isSome_iff_exists.mp ((htokens.outstanding_iff m.id).mpr hflight)
    obtain ⟨j, call', hj, hcall', rfl, -⟩ := hinv.completions.outstanding _ _ hout
    cases Nat.succ.inj (hid.trans hj)
    cases hcall.symm.trans hcall'
    exact .inl ⟨m.response, by simp [RpcLink.lookedUp, hout]⟩
  · rcases h.handled i call hcall hresponse hold with ⟨response, hhandling⟩ | hdone
    · cases hidle.symm.trans hhandling
    · exact .inr hdone

theorem Answered.moves (hinv : Inv s) (htokens : Tokens s) (h : Answered s) (hmove : Moves s false t) : Answered t := by
  cases hmove with
  | fetchAdd call => exact h.fetchAdd hinv.calls htokens call
  | register n rest hperm => exact h.register hinv.calls hperm
  | sendRequest | refuse | callMethod | runDone => exact h.of_same rfl rfl rfl rfl rfl rfl rfl
  | clientReceive m rest hclient hidle => exact h.clientReceive hinv htokens hidle hclient
  | drop out response hhandling hobject =>
    refine ⟨h.registered, fun i call hcall hresponse hprocessed => .inr ?_⟩
    rcases h.handled i call hcall hresponse hprocessed with ⟨response', hout⟩ | hdone
    · cases hhandling.symm.trans hout
      simp [outstandingCall, hresponse] at hobject
    · exact hdone
  | complete out response object hhandling hobject =>
    refine ⟨h.registered, fun i call hcall hresponse hprocessed => .inr ?_⟩
    rcases h.handled i call hcall hresponse hprocessed with ⟨response', hout⟩ | ⟨hcompleted, hdone⟩
    · cases hhandling.symm.trans hout
      simp only [outstandingCall, hresponse, if_true, Option.some.injEq] at hobject
      subst hobject
      refine ⟨List.mem_cons_self, fun hcallback => ?_⟩
      simp [outstandingCall, hcallback]
    · exact ⟨List.mem_cons_of_mem _ hcompleted, fun hcallback => List.mem_append_right _ (hdone hcallback)⟩

/-- A call with an object is completed when its response has been looked up and is not being handled any more. -/
theorem Answered.completed_iff (hcompletions : Completions s) (hcontents : Contents s) (h : Answered s) {i : Nat}
    {call : RpcCall pb} (hcall : s.calls[i]? = some call) (hresponse : call.response = true) :
    i ∈ s.completed ↔ i + 1 ∈ s.processed ∧ ¬s.Handling i call := by
  constructor
  · intro hi
    refine ⟨(hcontents.completed i hi).1, ?_⟩
    rintro ⟨response, hhandling⟩
    obtain ⟨-, -, hnot, -⟩ := hcompletions.handling _ _ ⟨i, pb.outputType call.method⟩ hhandling
      (by simp [outstandingCall, hresponse])
    exact hnot hi
  · rintro ⟨hprocessed, hidle⟩
    rcases h.handled i call hcall hresponse hprocessed with hhandling | ⟨hi, -⟩
    · exact absurd hhandling hidle
    · exact hi

theorem Answered.done_run (hcompletions : Completions s) (hcontents : Contents s) (h : Answered s) {i : Nat}
    {call : RpcCall pb} (hcall : s.calls[i]? = some call) (hresponse : call.response = true) (hi : i ∈ s.completed)
    (hdone : call.done = true) : i ∈ s.doneRuns := by
  obtain ⟨hprocessed, hidle⟩ := (h.completed_iff hcompletions hcontents hcall hresponse).mp hi
  rcases h.handled i call hcall hresponse hprocessed with hhandling | ⟨-, hruns⟩
  · exact absurd hhandling hidle
  · exact hruns hdone

variable {services : Option (String → Option (List String))} {clientConn serverConn : Nat} {es : List (Event pb)}

theorem inv_initial : Inv (initial pb services clientConn serverConn) := by
  refine ⟨⟨rfl, ?_, ?_, ?_, ?_⟩, ⟨?_, ?_, ?_⟩, ⟨?_, ?_, ?_, ?_, ?_⟩, ⟨?_, ?_, ?_⟩, rfl⟩ <;>
    simp [initial]

theorem tokens_initial : Tokens (initial pb services clientConn serverConn) := by
  constructor <;> simp [initial, inFlight]

theorem contents_initial : Contents (initial pb services clientConn serverConn) := by
  constructor <;> simp [initial]

theorem answered_initial : Answered (initial pb services clientConn serverConn) := by
  constructor <;> simp [initial]

theorem Run.inv [DecidableEq T] (h : (system pb).Run (fun _ _ => True) (initial pb services clientConn serverConn) es s) :
    Inv s := by
  refine h.invariant ?_ inv_initial
  intro s t e hinv _ hstep
  exact hinv.moves (moves_of_step hinv.calls hinv.messages hinv.completions hstep)

/-- In a run without injected responses, what is on its way is matched with the calls. -/
theorem Run.matched [DecidableEq T]
    (h : (system pb).Run (fun _ e => e.injects = false) (initial pb services clientConn serverConn) es s) :
    Inv s ∧ Tokens s ∧ Contents s ∧ Answered s := by
  refine h.invariant (I := fun s => Inv s ∧ Tokens s ∧ Contents s ∧ Answered s) ?_
    ⟨inv_initial, tokens_initial, contents_initial, answered_initial⟩
  rintro s t e ⟨hinv, htokens, hcontents, hanswered⟩ hinjects hstep
  have hmove := moves_of_step hinv.calls hinv.messages hinv.completions hstep
  rw [hinjects] at hmove
  exact ⟨hinv.moves hmove, htokens.moves hinv.calls hmove,
    hcontents.moves hinv.calls hinv.messages hinv.completions htokens hmove,
    hanswered.moves hinv htokens hmove⟩

/-- Whatever the threads, the services and injected responses do, `done` runs at most once for a call, and the
server has sent one response with its id for every request but those that are with their services. The ids are those
that a counter of 64 bits gives as long as there are fewer than `2 ^ 63` calls. Without injected responses, a call is
completed, with its `done`, when its response has been looked up and is not being handled any more, its object holds
what the service answered to its request from then on, and nothing else, and the calls in the map are those whose
response has not been looked up. -/
theorem calls_matched [DecidableEq T]
    (h : (system pb).Run (fun _ _ => True) (initial pb services clientConn serverConn) es s) :
    s.doneRuns.Nodup ∧
      (s.received.map (·.id)).Perm (s.emitted.map (·.id) ++ s.serving.map (·.id)) ∧
      (∀ m ∈ s.received, m.type = .REQUEST) ∧ (∀ m ∈ s.emitted, m.type = .RESPONSE) ∧
      (s.client.id = s.calls.length ∧ ∀ id ∈ s.issued, 1 ≤ id ∧ id ≤ s.calls.length) ∧
      ((∀ e ∈ es, e.injects = false) →
        (∀ i call, s.calls[i]? = some call → call.response = true →
          (i ∈ s.completed ↔ i + 1 ∈ s.processed ∧ ¬s.Handling i call) ∧
            (i ∈ s.completed → call.done = true → i ∈ s.doneRuns)) ∧
        (∀ i call, s.calls[i]? = some call → ∀ m, s.objects i = some m ↔
          i ∈ s.completed ∧ (⟨⟨i + 1, call.method, call.request⟩, m⟩ : RpcAnswer M) ∈ s.answers) ∧
        ∀ id, (s.client.outstandings id).isSome ↔ id ∈ s.issued ∧ id ∉ s.processed) := by
  obtain ⟨hcalls, -, hcompletions, hserved, -⟩ := Run.inv h
  refine ⟨hcompletions.completed_nodup.sublist hcompletions.doneRuns, hserved.perm, hserved.received, hserved.emitted,
    ⟨hcalls.id_eq, ?_⟩, ?_⟩
  · intro id hid
    obtain ⟨i, hi, rfl, -⟩ := hcalls.issued id hid
    exact ⟨Nat.succ_pos i, hi⟩
  intro hinjects
  obtain ⟨hinv, htokens, hcontents, hanswered⟩ := Run.matched (h.restrict hinjects)
  refine ⟨?_, fun i call hcall m => hcontents.object_iff hcall m, ?_⟩
  · intro i call hcall hresponse
    exact ⟨hanswered.completed_iff hcompletions hcontents hcall hresponse,
      fun hi hdone => hanswered.done_run hcompletions hcontents hcall hresponse hi hdone⟩
  · intro id
    rw [htokens.outstanding_iff, ← htokens.perm.mem_iff, List.mem_append]
    have hdisjoint := (List.nodup_append.mp (htokens.nodup hinv.calls)).2.2
    constructor
    · intro hid
      exact ⟨.inl hid, fun hprocessed => hdisjoint id hid id hprocessed rfl⟩
    · rintro ⟨hid | hid, hnot⟩
      · exact hid
      · exact absurd hid hnot

/-- A stand-in for protobuf in concrete runs: the messages are bytes, of one type, and every one is parsed. -/
def rawProtobuf : Protobuf Unit Bytes where
  typeOf _ := ()
  serializeAsString m := m
  parseFromString _ bytes := (true, bytes)
  inputType _ := ()
  outputType _ := ()
  parse_serialize _ := rfl

def echoServices : Option (String → Option (List String)) :=
  some fun name => if name = "Echo" then some ["say"] else none

def callOf (service : String) (request : Bytes) : RpcCall rawProtobuf := ⟨⟨service, "say"⟩, request, rfl, true, true⟩

/-- Two calls that overtake each other on the way to the map; the server does not know the service of the second. A
third call has no `done`. -/
def overtakingCalls : List (Event rawProtobuf) :=
  [.fetchAdd (callOf "Echo" [1]), .fetchAdd (callOf "Other" [2]), .register 0, .register 0, .sendRequest 1,
    .sendRequest 0, .serverReceive, .serverReceive, .clientReceive, .runDone 0 [9], .complete, .clientReceive, .complete,
    .fetchAdd { callOf "Echo" [3] with done := false }, .register 0, .sendRequest 0, .serverReceive, .runDone 0 [7],
    .clientReceive, .complete]

theorem calls_matched_overtaking :
    ∃ s, (system rawProtobuf).Run (fun _ _ => True) (initial rawProtobuf echoServices 0 1) overtakingCalls s ∧
      s.doneRuns.Nodup ∧ s.doneRuns = [0, 1] ∧ 0 ∈ s.completed ∧ 2 ∈ s.completed ∧ s.objects 0 = some [9] ∧
      s.objects 1 = none ∧ s.objects 2 = some [7] ∧ (s.client.outstandings 1).isSome = false := by
  have hreplay : ((system rawProtobuf).checked (fun _ _ => True) (initial rawProtobuf echoServices 0 1)
      overtakingCalls).any (fun s => s.doneRuns = [0, 1] ∧ s.handling.isNone ∧ 1 ∈ s.processed ∧ 3 ∈ s.processed ∧
        (s.calls[0]?.any fun call => call.response) ∧ (s.calls[2]?.any fun call => call.response) ∧
        s.objects 0 = some [9] ∧ s.objects 1 = none ∧ s.objects 2 = some [7] ∧
        (s.client.outstandings 1).isSome = false) = true := by
    decide +kernel
  obtain ⟨s, hrun, htest⟩ := Stepper.Run.of_any hreplay
  obtain ⟨hdone, hnone, hprocessed, hprocessed', hfirst, hthird, hobjects, hmap⟩ := of_decide_eq_true htest
  obtain ⟨call, hcall, hresponse⟩ := (Option.any_eq_true _ _).mp hfirst
  obtain ⟨call', hcall', hresponse'⟩ := (Option.any_eq_true _ _).mp hthird
  obtain ⟨hnodup, -, -, -, -, hmatched⟩ := calls_matched hrun
  obtain ⟨hcompleted, -⟩ := hmatched (by decide)
  have hidle : ∀ i call, ¬s.Handling i call := by
    rintro i call ⟨response, hhandling⟩
    rw [hhandling] at hnone
    cases hnone
  exact ⟨s, hrun, hnodup, hdone, (hcompleted 0 call hcall hresponse).1.mpr ⟨hprocessed, hidle 0 call⟩,
    (hcompleted 2 call' hcall' hresponse').1.mpr ⟨hprocessed', hidle 2 call'⟩, hobjects, hmap⟩

end Muduo.RpcLink
