import Muduo.HttpContext
import Muduo.TcpConnection

/-! # The HTTP server

`HttpResponse`, and what `HttpServer` does with the input of a connection. The HTTP callback is given with each
call of `onMessage`, and so are the time and the result of the write that `send` may try. -/

namespace Muduo

inductive HttpStatusCode where
  | kUnknown
  | k200Ok
  | k301MovedPermanently
  | k400BadRequest
  | k404NotFound
  deriving DecidableEq

def HttpStatusCode.value : HttpStatusCode → Nat
  | .kUnknown => 0
  | .k200Ok => 200
  | .k301MovedPermanently => 301
  | .k400BadRequest => 400
  | .k404NotFound => 404

structure HttpResponse where
  /-- The entries of the map, in the order of their keys. -/
  headers : List (Bytes × Bytes) := []
  statusCode : HttpStatusCode := .kUnknown
  statusMessage : Bytes := []
  closeConnection : Bool
  body : Bytes := []

namespace HttpResponse

/-- `headers_[key] = value` -/
def insertHeader (key value : Bytes) : List (Bytes × Bytes) → List (Bytes × Bytes)
  | [] => [(key, value)]
  | (k, v) :: entries =>
    if key = k then (k, value) :: entries
    else if key < k then (key, value) :: (k, v) :: entries
    else (k, v) :: insertHeader key value entries

def addHeader (key value : Bytes) (r : HttpResponse) : HttpResponse :=
  { r with headers := insertHeader key value r.headers }

def setContentType (contentType : Bytes) (r : HttpResponse) : HttpResponse :=
  r.addHeader (ascii "Content-Type") contentType

/-- A number as `std::format` writes it. -/
def decimal (n : Nat) : Bytes := ascii (toString n)

def appendHeader (output : Buffer) (entry : Bytes × Bytes) : Buffer :=
  (((output.append entry.1).append (ascii ": ")).append entry.2).append (ascii "\r\n")

def appendToBuffer (r : HttpResponse) (output : Buffer) : Buffer :=
  let output := output.append (ascii "HTTP/1.1 " ++ decimal r.statusCode.value ++ ascii " ")
  let output := (output.append r.statusMessage).append (ascii "\r\n")
  let output :=
    if r.closeConnection then output.append (ascii "Connection: close\r\n")
    else
      (output.append (ascii "Content-Length: " ++ decimal r.body.length ++ ascii "\r\n")).append
        (ascii "Connection: Keep-Alive\r\n")
  let output := r.headers.foldl appendHeader output
  (output.append (ascii "\r\n")).append r.body

end HttpResponse

abbrev HttpCallback := HttpRequest → HttpResponse → HttpResponse

/-- What the server does for a connection: the HTTP callback with the response it leaves, or the refusal of a
request. -/
inductive HttpEvent where
  | callback (request : HttpRequest) (response : HttpResponse)
  | badRequest

/-- A connection of the server, with the context it holds. -/
structure HttpSite where
  site : Site
  context : Option HttpContext := none
  /-- Newest first. -/
  events : List HttpEvent := []

/-- A chunk that arrives, and what the call of `onMessage` for it meets. -/
structure HttpDelivery where
  chunk : Bytes
  receiveTime : Timestamp
  httpCallback : HttpCallback
  result : WriteResult

namespace HttpSite

def inputBuffer (s : HttpSite) : Buffer := s.site.conn.inputBuffer

def setInputBuffer (buf : Buffer) (s : HttpSite) : HttpSite :=
  { s with site := { s.site with conn := { s.site.conn with inputBuffer := buf } } }

def record (e : HttpEvent) (s : HttpSite) : HttpSite := { s with events := e :: s.events }

def send (message : Bytes) (result : WriteResult) (s : HttpSite) : HttpSite :=
  { s with site := s.site.send message result }

def shutdown (s : HttpSite) : HttpSite := { s with site := s.site.shutdown }

def onConnection (s : HttpSite) : HttpSite :=
  if s.site.conn.state = .kConnected then { s with context := some {} } else s

/-- The response the callback finds closes the connection already. -/
def closesByDefault (req : HttpRequest) : Bool :=
  let connection := req.getHeader (ascii "Connection")
  connection = ascii "close" || (req.version = .kHttp10 && connection ≠ ascii "Keep-Alive")

def onRequest (httpCallback : HttpCallback) (result : WriteResult) (req : HttpRequest) (s : HttpSite) : HttpSite :=
  let response := httpCallback req { closeConnection := closesByDefault req }
  let s := s.record (.callback req response)
  let s := s.send (response.appendToBuffer (.new Buffer.kInitialSize)).readableSpan result
  if response.closeConnection then s.shutdown else s

/-- A context is made if there is none, so the answer `500` is never sent. -/
def onMessage (d : HttpDelivery) (s : HttpSite) : HttpSite :=
  let parse := (s.context.getD {}).parseRequest s.inputBuffer d.receiveTime
  let s := { s.setInputBuffer parse.buf with context := some parse.context }
  if !parse.ok then ((s.record .badRequest).send (ascii "HTTP/1.1 400 Bad Request\r\n\r\n") d.result).shutdown
  else if parse.context.gotAll then
    { s.onRequest d.httpCallback d.result parse.context.request with context := some parse.context.reset }
  else s

/-- The connection reads a chunk and calls the message callback. -/
def deliver (s : HttpSite) (d : HttpDelivery) : HttpSite :=
  { s with site := s.site.readFd d.chunk }.onMessage d

/-- A connection that has just been established. -/
def established (id fd : Nat) : HttpSite := { site := (Site.new id fd).establish : HttpSite }.onConnection

end HttpSite
end Muduo
