import Muduo.Buffer
import Muduo.Lib.Stepper

/-! # Remote calls

`RpcChannel`, and a client channel with a server channel at the two ends of a connection. The codec carries the
messages in order in both directions. What protobuf does is given, and so is when a service runs `done` and what
it leaves in the response. Ids are numbers here: the 64 bits of `id_` do not run out. -/

namespace Muduo
open Lib

inductive MessageType where
  | REQUEST
  | RESPONSE
  | ERROR
  deriving DecidableEq

inductive RpcErrorCode where
  | NO_ERROR
  | WRONG_PROTO
  | NO_SERVICE
  | NO_METHOD
  | INVALID_REQUEST
  | INVALID_RESPONSE
  | TIMEOUT
  deriving DecidableEq

structure RpcMessage where
  type : MessageType
  id : Nat
  service : Option String := none
  method : Option String := none
  request : Option Bytes := none
  response : Option Bytes := none
  error : Option RpcErrorCode := none
  deriving DecidableEq

/-- The method of a service with a full name. -/
structure MethodDescriptor where
  service : String
  name : String
  deriving DecidableEq

/-- The messages of the two sides, of types `T`. -/
structure Protobuf (T M : Type) where
  typeOf : M → T
  serializeAsString : M → Bytes
  /-- Whether a message of the type could be parsed, and what the object holds then. -/
  parseFromString : T → Bytes → Bool × M
  inputType : MethodDescriptor → T
  outputType : MethodDescriptor → T
  /-- The parse may still fail, for want of a required field. -/
  parse_serialize (m : M) : (parseFromString (typeOf m) (serializeAsString m)).2 = m

/-- The object that the caller passes for the response to a call. -/
structure ResponseObject (T : Type) where
  call : Nat
  type : T

structure OutstandingCall (T : Type) where
  response : Option (ResponseObject T) := none
  /-- The call whose closure it is. -/
  done : Option Nat := none

/-- A call of a service, until it runs `done`. -/
structure ServiceCall (M : Type) where
  id : Nat
  method : MethodDescriptor
  request : M

/-- The rest of `onRpcMessage`, once the lock is released. -/
inductive RpcReaction (T M : Type) where
  | nothing
  | complete (out : OutstandingCall T) (response : Option Bytes)
  | callMethod (call : ServiceCall M)
  | send (message : RpcMessage)

structure RpcChannel (T : Type) where
  conn : Nat
  id : Nat := 0
  outstandings : Nat → Option (OutstandingCall T) := fun _ => none
  /-- The names of the methods of each service, unless the pointer is null. -/
  services : Option (String → Option (List String)) := none

/-- What `CallMethod` is called with: a request of the type of the method, maybe an object for the response, which
is of the type of the method too, and maybe a closure. -/
structure RpcCall {T M : Type} (pb : Protobuf T M) where
  method : MethodDescriptor
  request : M
  request_type : pb.typeOf request = pb.inputType method
  response : Bool := true
  done : Bool := true

namespace RpcChannel
variable {T M : Type} (pb : Protobuf T M)

def requestMessage (id : Nat) (call : RpcCall pb) : RpcMessage :=
  { type := .REQUEST, id, service := some call.method.service, method := some call.method.name
    request := some (pb.serializeAsString call.request) }

def outstandingCall (number : Nat) (call : RpcCall pb) : OutstandingCall T :=
  { response := if call.response then some ⟨number, pb.outputType call.method⟩ else none
    done := if call.done then some number else none }

def setOutstanding (id : Nat) (out : Option (OutstandingCall T)) (c : RpcChannel T) : RpcChannel T :=
  { c with outstandings := fun i => if i = id then out else c.outstandings i }

@[simp] theorem outstandings_setOutstanding {id : Nat} {out : Option (OutstandingCall T)} {c : RpcChannel T} :
    (c.setOutstanding id out).outstandings id = out := if_pos rfl

theorem outstandings_setOutstanding_of_ne {id i : Nat} {out : Option (OutstandingCall T)} {c : RpcChannel T} (h : i ≠ id) :
    (c.setOutstanding id out).outstandings i = c.outstandings i := if_neg h

def tryEmplace (id : Nat) (out : OutstandingCall T) (c : RpcChannel T) : RpcChannel T :=
  if (c.outstandings id).isSome then c else c.setOutstanding id (some out)

/-- The service call for a request, or why there is none. -/
def dispatch (message : RpcMessage) (c : RpcChannel T) : Except RpcErrorCode (ServiceCall M) :=
  match c.services with
  | none => .error .NO_SERVICE
  | some services =>
    match services (message.service.getD "") with
    | none => .error .NO_SERVICE
    | some methods =>
      let method : MethodDescriptor := ⟨message.service.getD "", message.method.getD ""⟩
      if method.name ∈ methods then
        let parsed := pb.parseFromString (pb.inputType method) (message.request.getD [])
        if parsed.1 then .ok ⟨message.id, method, parsed.2⟩ else .error .INVALID_REQUEST
      else .error .NO_METHOD

def errorResponse (id : Nat) (error : RpcErrorCode) : RpcMessage := { type := .RESPONSE, id, error := some error }

/-- The message that `doneCallback` sends. -/
def doneResponse (id : Nat) (response : M) : RpcMessage :=
  { type := .RESPONSE, id, response := some (pb.serializeAsString response) }

def onRpcMessage (conn : Nat) (message : RpcMessage) (c : RpcChannel T) : RpcReaction T M × RpcChannel T :=
  if conn ≠ c.conn then (.nothing, c)
  else
    match message.type with
    | .RESPONSE =>
      (.complete ((c.outstandings message.id).getD {}) message.response, c.setOutstanding message.id none)
    | .REQUEST =>
      match c.dispatch pb message with
      | .ok call => (.callMethod call, c)
      | .error error => (.send (errorResponse message.id error), c)
    | .ERROR => (.nothing, c)

end RpcChannel

/-- A call that has its id and is not in the map yet. -/
structure NumberedCall {T M : Type} (pb : Protobuf T M) where
  number : Nat
  id : Nat
  call : RpcCall pb

/-- What a service has left in the response to a call when it ran `done`. -/
structure RpcAnswer (M : Type) extends ServiceCall M where
  reply : M

/-- The two channels, the threads that call, and the messages on their way. -/
structure RpcLink {T M : Type} (pb : Protobuf T M) where
  client : RpcChannel T
  server : RpcChannel T
  /-- The calls so far, in the order they get their ids. -/
  calls : List (RpcCall pb) := []
  numbered : List (NumberedCall pb) := []
  /-- The requests of the calls in the map that are still to be sent. -/
  unsent : List RpcMessage := []
  toServer : List RpcMessage := []
  toClient : List RpcMessage := []
  serving : List (ServiceCall M) := []
  /-- What the client has taken out of the map, and the response it handles. -/
  handling : Option (OutstandingCall T × Option Bytes) := none
  /-- What has been parsed into the response object of a call. -/
  objects : Nat → Option M := fun _ => none
  /-- The ids in the map so far, and those of the responses that the client has looked up. Newest first, as the
  other histories. -/
  issued : List Nat := []
  processed : List Nat := []
  /-- The calls whose response has been handled, and those whose `done` has run. -/
  completed : List Nat := []
  doneRuns : List Nat := []
  /-- The requests that the server has received, the responses it has sent, and the answers among them. -/
  received : List RpcMessage := []
  emitted : List RpcMessage := []
  answers : List (RpcAnswer M) := []
  /-- How often `assert(inserted)` has failed. -/
  failed : Nat := 0

namespace RpcLink
open RpcChannel
variable {T M : Type} {pb : Protobuf T M}

/-- `CallMethod` up to the lock. -/
def fetchAdd (call : RpcCall pb) (s : RpcLink pb) : RpcLink pb :=
  { s with
    client := { s.client with id := s.client.id + 1 }
    calls := s.calls ++ [call]
    numbered := ⟨s.calls.length, s.client.id + 1, call⟩ :: s.numbered }

/-- What `CallMethod` does under the lock. -/
def register (n : NumberedCall pb) (rest : List (NumberedCall pb)) (s : RpcLink pb) : RpcLink pb :=
  { s with
    client := s.client.tryEmplace n.id (outstandingCall pb n.number n.call)
    numbered := rest
    unsent := requestMessage pb n.id n.call :: s.unsent
    issued := n.id :: s.issued
    failed := if (s.client.outstandings n.id).isSome then s.failed + 1 else s.failed }

def sendRequest (message : RpcMessage) (rest : List RpcMessage) (s : RpcLink pb) : RpcLink pb :=
  { s with unsent := rest, toServer := s.toServer ++ [message] }

/-- The server sends a response. -/
def emit (message : RpcMessage) (s : RpcLink pb) : RpcLink pb :=
  { s with toClient := s.toClient ++ [message], emitted := message :: s.emitted }

def serverReact (reaction : RpcReaction T M) (s : RpcLink pb) : RpcLink pb :=
  match reaction with
  | .nothing => s
  -- The server makes no calls, so there is none to complete.
  | .complete _ _ => s
  | .callMethod call => { s with serving := call :: s.serving }
  | .send message => s.emit message

def serverReceive (message : RpcMessage) (rest : List RpcMessage) (s : RpcLink pb) : RpcLink pb :=
  let result := s.server.onRpcMessage pb s.server.conn message
  { s with server := result.2, toServer := rest, received := message :: s.received }.serverReact result.1

/-- A service runs `done`, with a response of the type of the method. -/
def runDone (call : ServiceCall M) (reply : M) (rest : List (ServiceCall M)) (s : RpcLink pb) : RpcLink pb :=
  { s with serving := rest, answers := ⟨call, reply⟩ :: s.answers }.emit (doneResponse pb call.id reply)

def clientReact (reaction : RpcReaction T M) (s : RpcLink pb) : RpcLink pb :=
  match reaction with
  | .nothing => s
  | .complete out response => { s with handling := some (out, response) }
  -- The client has no services.
  | .callMethod _ => s
  | .send message => { s with toServer := s.toServer ++ [message] }

/-- `onRpcMessage` of the client, as far as the lock is held. -/
def clientReceive (message : RpcMessage) (rest : List RpcMessage) (s : RpcLink pb) : RpcLink pb :=
  let result := s.client.onRpcMessage pb s.client.conn message
  { s with client := result.2, toClient := rest, processed := message.id :: s.processed }.clientReact result.1

/-- `ParseFromString` on the response object of a call, if there is something to parse. -/
def fill (pb : Protobuf T M) (object : ResponseObject T) (response : Option Bytes) (objects : Nat → Option M) :
    Nat → Option M :=
  match response with
  | none => objects
  | some bytes => fun i => if i = object.call then some (pb.parseFromString object.type bytes).2 else objects i

/-- The rest of `onRpcMessage` of the client. -/
def complete (out : OutstandingCall T) (response : Option Bytes) (s : RpcLink pb) : RpcLink pb :=
  match out.response with
  | none => { s with handling := none }
  | some object =>
    { s with
      handling := none
      objects := fill pb object response s.objects
      completed := object.call :: s.completed
      doneRuns := out.done.toList ++ s.doneRuns }

inductive Event (pb : Protobuf T M) where
  | fetchAdd (call : RpcCall pb)
  | register (k : Nat)
  | sendRequest (k : Nat)
  | serverReceive
  | runDone (k : Nat) (reply : M)
  | clientReceive
  | complete
  /-- A response arrives that the server has not sent. -/
  | inject (message : RpcMessage)

def step [DecidableEq T] (s : RpcLink pb) : Event pb → Option (RpcLink pb)
  | .fetchAdd call => some (s.fetchAdd call)
  | .register k => s.numbered[k]?.map fun n => s.register n (s.numbered.eraseIdx k)
  | .sendRequest k => s.unsent[k]?.map fun message => s.sendRequest message (s.unsent.eraseIdx k)
  | .serverReceive =>
    match s.toServer with
    | [] => none
    | message :: rest => some (s.serverReceive message rest)
  | .runDone k reply =>
    match s.serving[k]? with
    | none => none
    | some call =>
      if pb.typeOf reply = pb.outputType call.method then some (s.runDone call reply (s.serving.eraseIdx k)) else none
  | .clientReceive =>
    match s.handling, s.toClient with
    | none, message :: rest => some (s.clientReceive message rest)
    | _, _ => none
  | .complete => s.handling.map fun h => s.complete h.1 h.2
  | .inject message => if message.type = .RESPONSE then some { s with toClient := s.toClient ++ [message] } else none

def system [DecidableEq T] (pb : Protobuf T M) : Stepper (RpcLink pb) (Event pb) := ⟨step⟩

/-- A client and a server that has some services, before any call. -/
def initial (pb : Protobuf T M) (services : Option (String → Option (List String))) (clientConn serverConn : Nat) :
    RpcLink pb :=
  { client := { conn := clientConn }, server := { conn := serverConn, services } }

end RpcLink
end Muduo
