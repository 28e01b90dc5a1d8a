import TcpNet.TcpConnection.Hangup

open Transition

namespace TcpNet

/-- What user code does in a callback: it calls the connection, or does something of
    its own that the trace shows. -/
inductive UserStep (E : Type) where
  | event (e : E)
  | send (message : Bytes)
  | shutdown
  deriving DecidableEq

/-- The user's side of a connection: what it keeps there, and what `messageCallBack_` does
    with the input buffer. `I` is all else that the callback depends on. There is no
    result where the callback never returns. -/
structure Application (A I E : Type) where
  init : A
  onMessage : A → WfBuffer → I → Option (A × WfBuffer × List (UserStep E))

/-- What can be seen of a connection that an application serves. The socket receives bytes
    and at last a FIN. `offered` is a call of the message callback, with the bytes read right
    before. A `send` or `shutdown` is seen where it finds `kConnected`. -/
inductive SessionEvent (I E : Type) where
  | received (data : Bytes)
  | fin
  | offered (data : Bytes) (input : I)
  | user (e : E)
  | sent (message : Bytes)
  | disconnecting
  | effect (effect : Effect)

/-- A connection in the thread of its loop, with the data of the application, and whether
    the close callback has been called. -/
structure Session (A : Type) extends Inbound where
  app : A
  closing : Bool

/-- The peer sends, `poll` reports events, the channel makes a callback, and the server
    runs the first and the last functor of the connection. The `n`-th write of the message
    callback returns `writes n`. -/
inductive SessionAction (I : Type) where
  | receive (data : Bytes)
  | receiveFin
  | connectEestablished
  | poll (revent : Events)
  | handle (io : IoResult) (input : I) (writes : Nat → WriteResult)
  | connectDestory

namespace TcpConnection

variable {I E : Type}

/-- What can be seen of a call that does its work only in `kConnected`. -/
def gated (conn : TcpConnection) (e : SessionEvent I E) : List (SessionEvent I E) :=
  if conn.state_ = .kConnected then [e] else []

/-- Do what the user code of a callback does, in the thread of the loop. -/
def follow (conn : TcpConnection) : List (UserStep E) → (Nat → WriteResult) →
    Except Stop (TcpConnection × List (SessionEvent I E))
  | [], _ => return (conn, [])
  | .event e :: rest, writes => do
    let (conn, es) ← conn.follow rest writes
    return (conn, .user e :: es)
  | .send message :: rest, writes => do
    let (conn', effects) ← conn.send conn.loop_ message (writes 0)
    let (conn'', es) ← conn'.follow rest (fun n => writes (n + 1))
    return (conn'', conn.gated (.sent message) ++ effects.map .effect ++ es)
  | .shutdown :: rest, writes => do
    let (conn', effects) ← conn.shutdown conn.loop_
    let (conn'', es) ← conn'.follow rest writes
    return (conn'', conn.gated .disconnecting ++ effects.map .effect ++ es)

end TcpConnection

namespace Session

variable {A I E : Type}

def new (app : Application A I E) (loop : LoopId) (name : Name) (sockfd : Int) : Session A :=
  { Inbound.new loop name sockfd with app := app.init, closing := false }

/-- `messageCallBack_`, with `data` as the bytes that were read. -/
def onMessage (app : Application A I E) (s : Session A) (data : Bytes) (input : I)
    (writes : Nat → WriteResult) : Except Stop (Session A × List (SessionEvent I E)) :=
  match app.onMessage s.app s.conn.inputBuffer_ input with
  | none => throw .disabled
  | some (kept, buf, script) => do
    let (conn, es) ← { s.conn with inputBuffer_ := buf }.follow script writes
    return ({ s with conn := conn, app := kept }, .offered data input :: es)

def step (app : Application A I E) (s : Session A) :
    SessionAction I → Except Stop (Session A × List (SessionEvent I E))
  | .receive data => do
    enabled (s.fin = false)
    return ({ s with unread := s.unread ++ data }, [.received data])
  | .receiveFin => do
    enabled (s.fin = false)
    return ({ s with fin := true }, [.fin])
  | .connectEestablished => do
    -- the first functor of the connection, which runs once
    enabled (s.conn.state_ = .kConnecting)
    let (conn, effects) ← s.conn.connectEestablished s.conn.loop_
    return ({ s with conn := conn }, effects.map .effect)
  | .poll revent => do
    -- a disabled channel has no entry with its descriptor
    enabled (s.handlers = [] ∧ s.conn.channel_.isNoneEvent = false)
    return ({ s with handlers := Channel.handleEvent revent }, [])
  | .handle io input writes =>
    match s.handlers with
    | [] => throw .disabled
    | handler :: rest => do
      enabled (handler = .read → s.CanRead io.read)
      let (conn, effects) ← s.conn.callBack s.conn.loop_ handler io
      let unread := if handler = .read then s.unread.drop io.read.taken.length else s.unread
      let s := { s with
        conn := conn
        unread := unread
        handlers := rest
        closing := s.closing || decide (.closeCallBack ∈ effects) }
      if .messageCallBack ∈ effects then s.onMessage app io.read.taken input writes
      else return (s, effects.map .effect)
  | .connectDestory => do
    -- the functor that `closeCallBack_` leads to runs behind all handlers, and once
    enabled (s.closing = true ∧ s.handlers = [] ∧ s.conn.state_ ≠ .kDisconnected)
    let (conn, effects) ← s.conn.connectDestory s.conn.loop_
    return ({ s with conn := conn }, effects.map .effect)

def machine (app : Application A I E) :
    Machine (Session A) (SessionAction I) (SessionEvent I E) where
  init s := ∃ loop name sockfd, s = new app loop name sockfd
  step := step app

section Events

variable (tr es : List (SessionEvent I E))

/-- The bytes that have come to the socket. -/
def arrived : List (SessionEvent I E) → Bytes := List.flatMap fun
  | .received data => data
  | _ => []

/-- The bytes that the message callbacks were called for. -/
def offeredBytes : List (SessionEvent I E) → Bytes := List.flatMap fun
  | .offered data _ => data
  | _ => []

/-- The messages that `send` accepted. -/
def sentMessages : List (SessionEvent I E) → List Bytes := List.filterMap fun
  | .sent message => some message
  | _ => none

/-- The bytes that the kernel accepted. -/
def wire : List (SessionEvent I E) → Bytes := List.flatMap fun
  | .effect (.written data) => data
  | _ => []

@[simp] theorem arrived_append : arrived (tr ++ es) = arrived tr ++ arrived es :=
  List.flatMap_append

@[simp] theorem offeredBytes_append :
    offeredBytes (tr ++ es) = offeredBytes tr ++ offeredBytes es :=
  List.flatMap_append

@[simp] theorem sentMessages_append :
    sentMessages (tr ++ es) = sentMessages tr ++ sentMessages es :=
  List.filterMap_append

@[simp] theorem wire_append : wire (tr ++ es) = wire tr ++ wire es := List.flatMap_append

end Events

end Session

/-- The message callback of the echo server: it sends back all that is in the buffer. -/
def echo : Application Unit Unit Empty where
  init := ()
  onMessage _ buf _ := some ((), buf.retrieveAll, [.send buf.contents])

end TcpNet
