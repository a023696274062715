import Muduo.Buffer
import Muduo.Lib.Search

/-! # HTTP requests

`HttpRequest` and the parser `HttpContext`. A `std::string` and a `std::string_view` are their bytes. -/

namespace Muduo
open Lib

/-- The bytes of a text literal of the source. -/
def ascii (text : String) : Bytes := text.toList.map fun c => UInt8.ofNat c.toNat

def kCRLF : Bytes := [0x0d, 0x0a]

abbrev Timestamp := Nat

namespace HttpRequest

inductive Method where
  | kInvalid
  | kGet
  | kPost
  | kHead
  | kPut
  | kDelete
  deriving DecidableEq

inductive Version where
  | kUnknown
  | kHttp10
  | kHttp11
  deriving DecidableEq

end HttpRequest

structure HttpRequest where
  method : HttpRequest.Method := .kInvalid
  version : HttpRequest.Version := .kUnknown
  path : Bytes := []
  query : Bytes := []
  receiveTime : Timestamp := 0
  /-- `headers_`: the value of each name that is a key. -/
  headers : Bytes → Option Bytes := fun _ => none

namespace HttpRequest

/-- The method of a name. -/
def methodOf (m : Bytes) : Method :=
  if m = ascii "GET" then .kGet
  else if m = ascii "POST" then .kPost
  else if m = ascii "HEAD" then .kHead
  else if m = ascii "PUT" then .kPut
  else if m = ascii "DELETE" then .kDelete
  else .kInvalid

def setMethod (m : Bytes) (r : HttpRequest) : HttpRequest := { r with method := methodOf m }

/-- `std::isspace` in the C locale. -/
def isspace (b : UInt8) : Bool := b = 0x20 || (0x09 ≤ b && b ≤ 0x0d)

/-- The two loops of `addHeader`. -/
def trim (value : Bytes) : Bytes := ((value.dropWhile isspace).reverse.dropWhile isspace).reverse

def addHeader (key value : Bytes) (r : HttpRequest) : HttpRequest :=
  { r with headers := fun name => if name = key then some (trim value) else r.headers name }

def getHeader (field : Bytes) (r : HttpRequest) : Bytes := (r.headers field).getD []

/-- The part of the URI before the first question mark, and the part behind it if there is one. -/
def setUri (uri : Bytes) (r : HttpRequest) : HttpRequest :=
  match search (ascii "?") uri with
  | some questionPos => { r with path := uri.take questionPos, query := uri.drop (questionPos + 1) }
  | none => { r with path := uri }

end HttpRequest

inductive HttpRequestParseState where
  | kExpectRequestLine
  | kExpectHeaders
  | kExpectBody
  | kGotAll
  deriving DecidableEq

structure HttpContext where
  state : HttpRequestParseState := .kExpectRequestLine
  request : HttpRequest := {}

/-- A call of `parseRequest`: what it returns, and the context and the buffer after it. -/
structure HttpParse where
  ok : Bool
  context : HttpContext
  buf : Buffer

namespace HttpContext

/-- The version, and what `processRequestLine` returns. -/
def setVersion (version : Bytes) (r : HttpRequest) : Bool × HttpRequest :=
  if version = ascii "HTTP/1.1" then (true, { r with version := .kHttp11 })
  else if version = ascii "HTTP/1.0" then (true, { r with version := .kHttp10 })
  else (false, r)

/-- What is left of the line behind the method, and the space after it. -/
def processUri (rest : Bytes) (r : HttpRequest) : Bool × HttpRequest :=
  match search (ascii " ") rest with
  | none => (false, r)
  | some uriEnd => setVersion (rest.drop (uriEnd + 1)) (r.setUri (rest.take uriEnd))

def processRequestLine (line : Bytes) (r : HttpRequest) : Bool × HttpRequest :=
  match search (ascii " ") line with
  | none => (false, r)
  | some methodEnd =>
    let r := r.setMethod (line.take methodEnd)
    if r.method = .kInvalid then (false, r) else processUri (line.drop (methodEnd + 1)) r

/-- A line of the headers: one without a colon ends them, and the loop. -/
def processHeader (line : Bytes) (c : HttpContext) : HttpContext :=
  match search (ascii ":") line with
  | some colon => { c with request := c.request.addHeader (line.take colon) (line.drop (colon + 1)) }
  | none => { c with state := .kGotAll }

def parseRequest (c : HttpContext) (buf : Buffer) (receiveTime : Timestamp) : HttpParse :=
  match c.state with
  | .kExpectRequestLine =>
    match _h : search kCRLF buf.readableSpan with
    | none => ⟨true, c, buf⟩
    | some crlf =>
      let (ok, request) := processRequestLine (buf.readableSpan.take crlf) c.request
      if ok then
        parseRequest ⟨.kExpectHeaders, { request with receiveTime := receiveTime }⟩ (buf.retrieve (crlf + 2)) receiveTime
      else ⟨false, { c with request := request }, buf⟩
  | .kExpectHeaders =>
    match _h : search kCRLF buf.readableSpan with
    | none => ⟨true, c, buf⟩
    | some crlf => parseRequest (processHeader (buf.readableSpan.take crlf) c) (buf.retrieve (crlf + 2)) receiveTime
  -- Bodies are not parsed.
  | .kExpectBody => ⟨true, c, buf⟩
  | .kGotAll => ⟨true, c, buf⟩
termination_by buf.readableBytes
decreasing_by
  all_goals
    have := search_bound _h
    rw [Buffer.length_readableSpan] at this
    simp only [kCRLF, List.length_cons, List.length_nil] at this
    rw [Buffer.readableBytes_retrieve]
    omega

def gotAll (c : HttpContext) : Bool := c.state = .kGotAll

def reset (_ : HttpContext) : HttpContext := {}

end HttpContext
end Muduo
