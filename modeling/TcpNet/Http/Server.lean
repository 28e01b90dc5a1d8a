import TcpNet.Http.Context
import TcpNet.Http.Response
import TcpNet.TcpConnection

open Transition

namespace TcpNet

/-- What the server does for one connection, in the order of the calls. The
    response of `httpCallback` is the one that the callback has made. -/
inductive HttpEvent where
  | parseRequest (state : HttpRequestParseState) (ok : Bool)
  | httpCallback (req : HttpRequest) (response : HttpResponse)
  | sendInloop (message : Bytes)
  | shutdownInloop
  deriving DecidableEq

/-- A connection of an `HttpServer` in the thread of its loop: the fields that
    `onMessage` reads or changes, with the context that the connection holds. -/
structure HttpConnection where
  state_ : StateE
  inputBuffer_ : WfBuffer
  context_ : HttpContext
  deriving DecidableEq

abbrev HttpCallback := HttpRequest → HttpResponse → HttpResponse

/-- Bytes that came in, when they did, and what the callback would do this time. -/
structure HttpMessage where
  data : Bytes
  receiveTime : Int
  httpCallback : HttpCallback

def defaultHttpCallback : HttpCallback := fun _ resp =>
  ((resp.setStatusCode .k404NotFound).setStatusMessage
    (ascii ['N', 'o', 't', ' ', 'F', 'o', 'u', 'n', 'd'])).setCloseConnection true

namespace HttpConnection

/-- The answer to a request that cannot be parsed. -/
def kBadRequest : Bytes :=
  HttpResponse.kHttp11 ++
    ascii [' ', '4', '0', '0', ' ', 'B', 'a', 'd', ' ', 'R', 'e', 'q', 'u', 'e', 's', 't'] ++
    Buffer.kCRLF ++ Buffer.kCRLF

/-- A connection that is established. -/
def fresh : HttpConnection := ⟨.kConnected, WfBuffer.new, HttpContext.new⟩

/-- `send` in the thread of the loop. -/
def send (conn : HttpConnection) (message : Bytes) : List HttpEvent :=
  if conn.state_ = .kConnected then [.sendInloop message] else []

/-- `shutdown` in the thread of the loop. -/
def shutdown (conn : HttpConnection) : HttpConnection × List HttpEvent :=
  if conn.state_ = .kConnected then ({ conn with state_ := .kDisconnecting }, [.shutdownInloop])
  else (conn, [])

/-- Whether the response to a request closes the connection, before the callback
    has its say. -/
def wantsClose (req : HttpRequest) : Bool :=
  let connection := req.getHeader HttpResponse.kConnection
  connection = HttpResponse.kClose ∨
    req.version_ = .kHttp10 ∧ connection ≠ HttpResponse.kKeepAlive

def onRequest (conn : HttpConnection) (req : HttpRequest) (httpCallback : HttpCallback) :
    HttpConnection × List HttpEvent :=
  let response := httpCallback req (HttpResponse.new (wantsClose req))
  let buf := response.appendTobuffer WfBuffer.new
  let sent := conn.send buf.contents
  if response.closeConnection then
    let (conn, shut) := conn.shutdown
    (conn, .httpCallback req response :: (sent ++ shut))
  else (conn, .httpCallback req response :: sent)

/-- Nothing where `parseRequest` never returns. -/
def onMessage (conn : HttpConnection) (receiveTime : Int) (httpCallback : HttpCallback) :
    Option (HttpConnection × List HttpEvent) := do
  let (ok, context, buf) ← conn.context_.parseRequest conn.inputBuffer_ receiveTime
  let parsed := HttpEvent.parseRequest conn.context_.state_ ok
  let conn := { conn with inputBuffer_ := buf, context_ := context }
  let (conn, refused) :=
    if ok then (conn, [])
    else
      let sent := conn.send kBadRequest
      let (conn, shut) := conn.shutdown
      (conn, sent ++ shut)
  if conn.context_.gotAll then
    let (conn, answered) := conn.onRequest conn.context_.request_ httpCallback
    return ({ conn with context_ := conn.context_.reset }, parsed :: (refused ++ answered))
  else
    return (conn, parsed :: refused)

/-- The bytes of a message are appended to the input buffer. -/
def receive (conn : HttpConnection) (data : Bytes) : HttpConnection :=
  { conn with inputBuffer_ := conn.inputBuffer_.append data }

def step (conn : HttpConnection) (message : HttpMessage) :
    Except Stop (HttpConnection × List HttpEvent) :=
  match (conn.receive message.data).onMessage message.receiveTime message.httpCallback with
  | some next => .ok next
  | none => .error .disabled

/-- The runs of a connection: bytes come in, and `onMessage` is called for them. -/
def machine : Machine HttpConnection HttpMessage HttpEvent where
  init conn := conn = fresh
  step := step

end HttpConnection

end TcpNet
