import TcpNet.Buffer.Wf
import TcpNet.Http.Request
import TcpNet.Library.While

namespace TcpNet

inductive HttpRequestParseState where
  | kExpectRequestLine
  | kExpectRequestHead
  | kExpectRequestBody
  | kGotAll
  deriving DecidableEq, Repr

structure HttpContext where
  state_ : HttpRequestParseState
  request_ : HttpRequest
  deriving DecidableEq

/-- The variables of the loop in `parseRequest`. -/
structure Parsing where
  ok : Bool
  hasMore : Bool
  context : HttpContext
  buf : WfBuffer

namespace HttpContext

def new : HttpContext := ⟨.kExpectRequestLine, .new⟩

def gotAll (context : HttpContext) : Bool := context.state_ = .kGotAll

/-- The swap leaves the old request in `dummy`. -/
def reset (_context : HttpContext) : HttpContext := ⟨.kExpectRequestLine, .new⟩

/-- Path and query of what stands between the two spaces of a request line. -/
def setUrl (request : HttpRequest) (url : Bytes) : HttpRequest :=
  let question := url.idxOf 63
  if question ≠ url.length then
    (request.setPath (url.take question)).setQuery (url.drop question)
  else request.setPath url

/-- The last word of a request line, `HTTP/1.` and one more character. -/
def processVersion (request : HttpRequest) (version : Bytes) : Bool × HttpRequest :=
  if version.length = 8 ∧ version.take 7 = ascii ['H', 'T', 'T', 'P', '/', '1', '.'] then
    if version.getLast? = some 49 then (true, request.setVersion .kHttp11)
    else if version.getLast? = some 48 then (true, request.setVersion .kHttp10)
    else (false, request)
  else (false, request)

/-- `line` is what stands from `begin` to `end`, and positions count from `begin`.
    A line whose first word is no method changes nothing else, and counts as a
    success. -/
def processRequestLine (request : HttpRequest) (line : Bytes) : Bool × HttpRequest :=
  let space := line.idxOf 32
  if space ≠ line.length then
    let (known, request) := request.setMethod (line.take space)
    if known then
      let start := space + 1
      let space := start + (line.drop start).idxOf 32
      let request :=
        if space < line.length then setUrl request (Memory.slice line start space) else request
      processVersion request (line.drop (space + 1))
    else (true, request)
  else (true, request)

/-- One round of the loop in `parseRequest`. In the last two states nothing
    happens, and nothing ever will. -/
def parseStep (receiveTime : Int) (p : Parsing) : Parsing :=
  match p.context.state_ with
  | .kExpectRequestLine =>
    match p.buf.nextLine with
    | some (line, rest) =>
      let (ok, request) := processRequestLine p.context.request_ line
      if ok then
        { p with
          ok := ok
          context := ⟨.kExpectRequestHead, request.setReceiveTime receiveTime⟩
          buf := rest }
      else { p with ok := ok, hasMore := false, context := { p.context with request_ := request } }
    | none => { p with hasMore := false }
  | .kExpectRequestHead =>
    match p.buf.nextLine with
    | some (line, rest) =>
      let colon := line.idxOf 58
      if colon ≠ line.length then
        { p with
          context := { p.context with request_ := p.context.request_.addHeader line colon }
          buf := rest }
      else
        { p with hasMore := false, context := { p.context with state_ := .kGotAll }, buf := rest }
    | none => { p with hasMore := false }
  | .kExpectRequestBody | .kGotAll => p

/-- The result, the context and the buffer, or nothing where the loop never ends.
    Every line takes two bytes at least, so that the fuel is enough. -/
def parseRequest (context : HttpContext) (buf : WfBuffer) (receiveTime : Int) :
    Option (Bool × HttpContext × WfBuffer) :=
  (While.loop Parsing.hasMore (parseStep receiveTime) (buf.readableBytes + 2)
    ⟨true, true, context, buf⟩).map fun p => (p.ok, p.context, p.buf)

end HttpContext

end TcpNet
