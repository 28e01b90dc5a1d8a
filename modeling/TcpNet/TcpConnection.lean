import TcpNet.Buffer.Wf
import TcpNet.Channel

open Transition

namespace TcpNet

/-- Threads and event loops share their numbers: thread `l` runs loop `l`, if
    there is such a loop. -/
abbrev ThreadId := Nat

abbrev LoopId := Nat

/-- The text of a `std::string` name. -/
abbrev Name := List Char

/-- What `::write` does with the bytes handed to it: take at most `n` of them,
    or fail with an `errno`. -/
inductive WriteResult where
  | accepted (n : Nat)
  | failed (errno : Nat)
  deriving DecidableEq, Repr

/-- The number that `::write` returns for `data`. -/
def WriteResult.write (result : WriteResult) (data : Bytes) : Int :=
  match result with
  | .accepted n => (min n data.length : Nat)
  | .failed _ => -1

inductive StateE where
  | kConnecting
  | kConnected
  | kDisconnecting
  | kDisconnected
  deriving DecidableEq, Repr

/-- What a connection does outside its own fields, in the order of the calls. -/
inductive Effect where
  | updateChannel
  | removeChannel
  | written (data : Bytes)
  | shutdownWrite
  | connectionCallBack (state : StateE)
  | messageCallBack
  | closeCallBack
  deriving DecidableEq, Repr

/-- The fields of `TcpConnection` that its own functions read or write. The two
    addresses and the user's context are never looked at, and the three
    callbacks are taken to be set. -/
structure TcpConnection where
  loop_ : LoopId
  name_ : Name
  state_ : StateE
  channel_ : Channel
  inputBuffer_ : WfBuffer
  outputBuffer_ : WfBuffer
  deriving DecidableEq

/-- What the system calls of one event handler will return. -/
structure IoResult where
  read : ReadResult
  write : WriteResult
  deriving DecidableEq, Repr

namespace TcpConnection

def new (loop : LoopId) (name : Name) (sockfd : Int) : TcpConnection where
  loop_ := loop
  name_ := name
  state_ := .kConnecting
  channel_ := Channel.new sockfd
  inputBuffer_ := WfBuffer.new
  outputBuffer_ := WfBuffer.new

/-- `loop_->assertInLoopThread()` in thread `here`. -/
def assertInLoopThread (conn : TcpConnection) (here : ThreadId) : Except Stop Unit :=
  require (here = conn.loop_)

def connectEestablished (conn : TcpConnection) (here : ThreadId) :
    Except Stop (TcpConnection × List Effect) := do
  conn.assertInLoopThread here
  require (conn.state_ = .kConnecting)
  return ({ conn with state_ := .kConnected, channel_ := conn.channel_.enableReading },
    [.updateChannel, .connectionCallBack .kConnected])

def connectDestory (conn : TcpConnection) (here : ThreadId) :
    Except Stop (TcpConnection × List Effect) := do
  conn.assertInLoopThread here
  require (conn.state_ = .kConnected ∨ conn.state_ = .kDisconnecting)
  return ({ conn with state_ := .kDisconnected, channel_ := conn.channel_.disableAll },
    [.updateChannel, .connectionCallBack .kDisconnected, .removeChannel])

def handleClose (conn : TcpConnection) (here : ThreadId) :
    Except Stop (TcpConnection × List Effect) := do
  conn.assertInLoopThread here
  require (conn.state_ = .kConnected ∨ conn.state_ = .kDisconnecting)
  return ({ conn with channel_ := conn.channel_.disableAll }, [.updateChannel, .closeCallBack])

/-- Reads the socket error and logs it. -/
def handleError (conn : TcpConnection) : TcpConnection × List Effect := (conn, [])

def handleRead (conn : TcpConnection) (here : ThreadId) (io : ReadResult) :
    Except Stop (TcpConnection × List Effect) := do
  let (ret, _saveErrno, inputBuffer) := conn.inputBuffer_.readFd io
  let conn := { conn with inputBuffer_ := inputBuffer }
  if ret > 0 then
    return (conn, [.messageCallBack])
  else if ret = 0 then
    conn.handleClose here
  else
    return conn.handleError

def shutdownInloop (conn : TcpConnection) (here : ThreadId) :
    Except Stop (TcpConnection × List Effect) := do
  conn.assertInLoopThread here
  if conn.channel_.isWriting = false then
    return (conn, [.shutdownWrite])
  else
    return (conn, [])

def handleWrite (conn : TcpConnection) (here : ThreadId) (io : WriteResult) :
    Except Stop (TcpConnection × List Effect) := do
  conn.assertInLoopThread here
  if conn.channel_.isWriting then
    let n := io.write conn.outputBuffer_.contents
    if n > 0 then
      let sent := .written (conn.outputBuffer_.contents.take n.toNat)
      let outputBuffer ← conn.outputBuffer_.retrieve n.toNat
      let conn := { conn with outputBuffer_ := outputBuffer }
      if conn.outputBuffer_.readableBytes = 0 then
        let conn := { conn with channel_ := conn.channel_.disableWriting }
        if conn.state_ = .kDisconnecting then
          let (conn, effects) ← conn.shutdownInloop here
          return (conn, sent :: .updateChannel :: effects)
        else
          return (conn, [sent, .updateChannel])
      else
        return (conn, [sent])
    else
      return (conn, [])
  else
    return (conn, [])

def sendInloop (conn : TcpConnection) (here : ThreadId) (message : Bytes) (io : WriteResult) :
    Except Stop (TcpConnection × List Effect) := do
  conn.assertInLoopThread here
  let (nWrote, sent) : Int × List Effect :=
    if conn.channel_.isWriting = false ∧ conn.outputBuffer_.readableBytes = 0 then
      let n := io.write message
      if n ≥ 0 then (n, [.written (message.take n.toNat)]) else (0, [])
    else (0, [])
  require (nWrote ≥ 0)
  if nWrote < message.length then
    let conn := { conn with
      outputBuffer_ := conn.outputBuffer_.append (message.drop nWrote.toNat) }
    if conn.channel_.isWriting = false then
      return ({ conn with channel_ := conn.channel_.enableWriting }, sent ++ [.updateChannel])
    else
      return (conn, sent)
  else
    return (conn, sent)

/-- The callback that the constructor registered for `handler`. -/
def callBack (conn : TcpConnection) (here : ThreadId) (handler : Handler) (io : IoResult) :
    Except Stop (TcpConnection × List Effect) :=
  match handler with
  | .close => conn.handleClose here
  | .error => return conn.handleError
  | .read => conn.handleRead here io.read
  | .write => conn.handleWrite here io.write

end TcpConnection

end TcpNet
