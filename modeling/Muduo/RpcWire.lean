import Muduo.RpcChannel
import Muduo.Theorems.ProtobufFraming

/-! # Remote calls over a connection

The two channels of `RpcLink` with what is between them: their codecs, the buffers of the two ends and the bytes on
the way. What is sent arrives in order and in any pieces, and either direction of the connection may break off after
any byte. A turn of the loop in `onMessage` is a step, so that other threads act between the messages of one read. -/

namespace Muduo
open Lib ProtobufCodec

theorem ProtobufCodec.header_fits (size : Nat) : 4 ≤ (Buffer.new size).prependableBytes := show 4 ≤ 8 by decide

/-- `send` of a codec: what it passes to the connection. -/
def ProtobufCodec.send {M : Type} (c : ProtobufCodec M) (m : M) : Bytes :=
  (c.fillEmptyBuffer m (.new Buffer.kInitialSize) (header_fits _)).readableSpan

/-- `"RPC0"` -/
def rpctag : Bytes := [82, 80, 67, 48]

theorem rpctag_fits : rpctag.length + kChecksumLen + kHeaderLen < 2 ^ 31 := by decide

/-- What protobuf does with the messages of channels. -/
structure RpcCodec where
  serialize : RpcMessage → Bytes
  parseFromArray : Bytes → Option RpcMessage
  /-- For a message of less than 2 GiB, with an id of 64 bits. -/
  parse_serialize (m : RpcMessage) : m.id < 2 ^ 64 → (serialize m).length + kChecksumLen < 2 ^ 31 →
    parseFromArray (serialize m) = some m

namespace RpcCodec
variable (c : RpcCodec)

/-- Protobuf can serialize the message. -/
def Sendable (m : RpcMessage) : Prop := m.id < 2 ^ 64 ∧ (c.serialize m).length + kChecksumLen < 2 ^ 31

instance (m : RpcMessage) : Decidable (c.Sendable m) := inferInstanceAs (Decidable (_ ∧ _))

def codec : ProtobufCodec { m : RpcMessage // c.Sendable m } where
  tag := rpctag
  serialize m := c.serialize m.val
  parseFromArray bytes := (c.parseFromArray bytes).bind fun m => if h : c.Sendable m then some ⟨m, h⟩ else none
  tag_fits := rpctag_fits
  size_fits m := m.property.2

end RpcCodec

/-- Where the loop thread of an end is in `onMessage`. -/
inductive CodecLoop where
  | outside
  | turning
  /-- In the callback for a message whose frame has `n` bytes. -/
  | callback (n : Nat)
  deriving DecidableEq

/-- One end of the connection. -/
structure RpcEnd where
  /-- Whether `send` of the connection sends. -/
  connected : Bool := true
  /-- What has been sent and the other end has not read. -/
  outgoing : Bytes := []
  inputBuffer : Buffer := .new Buffer.kInitialSize
  loop : CodecLoop := .outside

namespace RpcEnd
variable (c : RpcCodec)

/-- `codec_.send`. A message that protobuf cannot serialize is not modelled. -/
def send (m : RpcMessage) (e : RpcEnd) : Option RpcEnd :=
  if h : c.Sendable m then
    some (if e.connected then { e with outgoing := e.outgoing ++ c.codec.send ⟨m, h⟩ } else e)
  else none

def sendAll : List RpcMessage → RpcEnd → Option RpcEnd
  | [], e => some e
  | m :: ms, e => (e.send c m).bind (sendAll ms)

/-- `defaultErrorCallback`, and `onMessage` returns. -/
def fail (e : RpcEnd) : RpcEnd := { e with connected := false, loop := .outside }

/-- The connection breaks off: of what has been sent, the other end will read no more than `n` bytes. -/
def cut (n : Nat) (e : RpcEnd) : RpcEnd := { e with connected := false, outgoing := e.outgoing.take n }

end RpcEnd

structure RpcWire {T M : Type} (pb : Protobuf T M) where
  /-- The channels and the threads. The messages in its queues are handed to a codec and leave them in the same step. -/
  link : RpcLink pb
  client : RpcEnd := {}
  server : RpcEnd := {}

namespace RpcWire
variable {T M : Type} {pb : Protobuf T M} (c : RpcCodec)

/-- The codecs send what has been handed to them. -/
def transmit (w : RpcWire pb) : Option (RpcWire pb) :=
  (w.client.sendAll c w.link.toServer).bind fun client =>
    (w.server.sendAll c w.link.toClient).map fun server =>
      { link := { w.link with toServer := [], toClient := [] }, client, server }

/-- `handleRead` of the server has read `n` bytes and calls `onMessage`. -/
def serverRead (n : Nat) (w : RpcWire pb) : RpcWire pb :=
  { w with
    client := { w.client with outgoing := w.client.outgoing.drop n }
    server := { w.server with inputBuffer := w.server.inputBuffer.readFd (w.client.outgoing.take n), loop := .turning } }

def clientRead (n : Nat) (w : RpcWire pb) : RpcWire pb :=
  { w with
    server := { w.server with outgoing := w.server.outgoing.drop n }
    client := { w.client with inputBuffer := w.client.inputBuffer.readFd (w.server.outgoing.take n), loop := .turning } }

/-- A turn of the loop in `onMessage` of the server. The calls of services in it return at once. -/
def serverTurn (w : RpcWire pb) : Option (RpcWire pb) :=
  match c.codec.verdict w.server.inputBuffer.readableSpan with
  | .incomplete => some { w with server := { w.server with loop := .outside } }
  | .frame n none => some { w with server := { w.server with inputBuffer := w.server.inputBuffer.retrieve n } }
  | .frame n (some m) =>
    transmit c
      { w with
        link := w.link.serverReceive m.val []
        server := { w.server with inputBuffer := w.server.inputBuffer.retrieve n } }
  | .error _ => some { w with server := w.server.fail }

/-- A turn of the loop in `onMessage` of the client, until it holds what a response is for. -/
def clientTurn (w : RpcWire pb) : Option (RpcWire pb) :=
  match c.codec.verdict w.client.inputBuffer.readableSpan with
  | .incomplete => some { w with client := { w.client with loop := .outside } }
  | .frame n none => some { w with client := { w.client with inputBuffer := w.client.inputBuffer.retrieve n } }
  | .frame n (some m) =>
    transmit c
      { w with
        link := w.link.clientReceive m.val []
        client := { w.client with loop := .callback n } }
  | .error _ => some { w with client := w.client.fail }

/-- The message callback of the client returns. -/
def clientReturn (n : Nat) (w : RpcWire pb) : RpcWire pb :=
  { w with client := { w.client with inputBuffer := w.client.inputBuffer.retrieve n, loop := .turning } }

inductive Event (pb : Protobuf T M) where
  | fetchAdd (call : RpcCall pb)
  | register (k : Nat)
  | sendRequest (k : Nat)
  | runDone (k : Nat) (reply : M)
  | complete
  | serverRead (n : Nat)
  | serverTurn
  | clientRead (n : Nat)
  | clientTurn
  | clientReturn
  | cutToServer (n : Nat)
  | cutToClient (n : Nat)

variable [DecidableEq T]

/-- A step of a thread, and what it sends. -/
def onLink (e : RpcLink.Event pb) (w : RpcWire pb) : Option (RpcWire pb) :=
  (w.link.step e).bind fun link => transmit c { w with link }

def step (w : RpcWire pb) : Event pb → Option (RpcWire pb)
  | .fetchAdd call => w.onLink c (.fetchAdd call)
  | .register k => w.onLink c (.register k)
  | .sendRequest k => w.onLink c (.sendRequest k)
  | .runDone k reply => w.onLink c (.runDone k reply)
  | .complete => w.onLink c .complete
  | .serverRead n =>
    if w.server.loop = .outside ∧ 0 < n ∧ n ≤ w.client.outgoing.length ∧ n ≤ w.server.inputBuffer.readCapacity then
      some (w.serverRead n)
    else none
  | .serverTurn => if w.server.loop = .turning then w.serverTurn c else none
  | .clientRead n =>
    if w.client.loop = .outside ∧ 0 < n ∧ n ≤ w.server.outgoing.length ∧ n ≤ w.client.inputBuffer.readCapacity then
      some (w.clientRead n)
    else none
  | .clientTurn => if w.client.loop = .turning then w.clientTurn c else none
  | .clientReturn =>
    match w.client.loop, w.link.handling with
    | .callback n, none => some (w.clientReturn n)
    | _, _ => none
  | .cutToServer n => some { w with client := w.client.cut n }
  | .cutToClient n => some { w with server := w.server.cut n }

def system (pb : Protobuf T M) (c : RpcCodec) : Stepper (RpcWire pb) (Event pb) := ⟨step c⟩

/-- A connection between a client and a server that has some services. -/
def initial (pb : Protobuf T M) (services : Option (String → Option (List String))) (clientConn serverConn : Nat) :
    RpcWire pb := { link := .initial pb services clientConn serverConn }

end RpcWire
end Muduo
