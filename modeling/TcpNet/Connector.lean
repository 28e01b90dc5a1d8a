import TcpNet.Channel
import TcpNet.Library.Transition

open Transition

namespace TcpNet

inductive Status where
  | kDisconnect
  | kConnecting
  | kConnected
  deriving DecidableEq, Repr

/-- A value of `errno`, or zero. -/
abbrev Errno := Nat

def EINTR : Errno := 4
def EAGAIN : Errno := 11
def EADDRINUSE : Errno := 98
def EADDRNOTAVAIL : Errno := 99
def ENETUNREACH : Errno := 101
def EISCONN : Errno := 106
def ECONNREFUSED : Errno := 111
def EINPROGRESS : Errno := 115

def kMaxRetryDelay : Int := 30 * 1000

def kInitRetryDelay : Int := 500

inductive ConnectorFunctor where
  | startInloop
  | resetChannel
  deriving DecidableEq, Repr

/-- What can be seen of a `Connector`. The two functions with an assertion tell
    what the assertion looks at. -/
inductive ConnectorEvent where
  | startInloop (state : Status)
  | connecting (channel : Option Channel)
  | restarted
  | retry
  | resetChannel
  | created (fd : Int)
  | closed (fd : Int)
  | connected (fd : Int)
  | runAfter (delayMs : Int)
  deriving DecidableEq, Repr

/-- The fields of a `Connector`, and what the loop and the system hold for it:
    whether the loop monitors `channel_`, the pending functors, the number of the
    retry timers that have not fired, of the calls of `start()` in other threads that
    have not queued `startInloop` yet, and of the sockets made so far. A socket goes by
    that number, as no two sockets that are open share a descriptor. An assertion
    that fails ends the process. -/
structure Connector where
  connect_ : Bool
  state_ : Status
  channel_ : Option Channel
  retryDelayMs_ : Int
  monitored : Bool
  functors : List ConnectorFunctor
  timers : Nat
  starting : Nat
  sockets : Nat
  aborted : Bool
  deriving DecidableEq, Repr

/-- What the user, the timers and the loop do. `startElsewhere` and `queueStart` are the
    two halves of a `start()` in another thread. Whether `::connect` fails, what
    `getSocketError` and `isSelfConnect` return and which events are reported is
    left open. User code in `connectCallback_` comes right behind the `handleEvent`
    that called it: the callback is the last thing there. -/
inductive ConnectorAction where
  | start (ret : Errno)
  | startElsewhere
  | queueStart
  | stop
  | restart (ret : Errno)
  | timer (ret : Errno)
  | callFunctor (ret : Errno)
  | handleEvent (revent : Events) (err : Errno) (selfConnect : Bool)
  deriving DecidableEq, Repr

namespace Connector

def new : Connector where
  connect_ := false
  state_ := .kDisconnect
  channel_ := none
  retryDelayMs_ := kInitRetryDelay
  monitored := false
  functors := []
  timers := 0
  starting := 0
  sockets := 0
  aborted := false

def setState (s : Connector) (e : Status) : Connector := { s with state_ := e }

def abort (s : Connector) : Connector := { s with aborted := true }

/-- The values of `errno` with which `connect` lets the attempt stand. -/
def keepsWaiting (saveError : Errno) : Bool := saveError ∈ [0, EINPROGRESS, EINTR, EISCONN]

/-- The values of `errno` with which `connect` tries again later. -/
def triesAgain (saveError : Errno) : Bool :=
  saveError ∈ [EAGAIN, EADDRINUSE, EADDRNOTAVAIL, ECONNREFUSED, ENETUNREACH]

def connecting (s : Connector) (sockfd : Int) : Connector × List ConnectorEvent :=
  let s := s.setState .kConnecting
  if s.channel_ = none then
    ({ s with channel_ := some (Channel.new sockfd).enableWriting, monitored := true },
      [.connecting none])
  else (s.abort, [.connecting s.channel_])

def retry (s : Connector) (sockfd : Int) : Connector × List ConnectorEvent :=
  let s := s.setState .kDisconnect
  if s.connect_ then
    ({ s with timers := s.timers + 1, retryDelayMs_ := min (s.retryDelayMs_ * 2) kMaxRetryDelay },
      [.retry, .closed sockfd, .runAfter s.retryDelayMs_])
  else (s, [.retry, .closed sockfd])

def connect (s : Connector) (saveError : Errno) : Connector × List ConnectorEvent :=
  let fd : Int := s.sockets
  let s := { s with sockets := s.sockets + 1 }
  let (s, es) :=
    if keepsWaiting saveError then s.connecting fd
    else if triesAgain saveError then s.retry fd
    else (s, [.closed fd])
  (s, .created fd :: es)

def startInloop (s : Connector) (ret : Errno) : Connector × List ConnectorEvent :=
  if s.state_ = .kDisconnect then
    let (s', es) := if s.connect_ then s.connect ret else (s, [])
    (s', .startInloop s.state_ :: es)
  else (s.abort, [.startInloop s.state_])

/-- An empty `channel_` would be dereferenced here. `disableAll` and `removeChannel` both
    make the loop assert that it knows the channel. -/
def removeAndResetChannel (s : Connector) : Except Stop (Connector × Int) :=
  match s.channel_ with
  | none => throw .assertion
  | some channel => do
    require (s.monitored = true)
    return ({ s with
      channel_ := some channel.disableAll
      monitored := false
      functors := s.functors ++ [.resetChannel] }, channel.fd_)

def handleWrite (s : Connector) (err : Errno) (selfConnect : Bool) :
    Except Stop (Connector × List ConnectorEvent) := do
  if s.state_ = .kConnecting then
    let (s, sockfd) ← s.removeAndResetChannel
    if err ≠ 0 then return s.retry sockfd
    else if selfConnect then return s.retry sockfd
    else if s.connect_ then return (s.setState .kConnected, [.connected sockfd])
    else return (s.setState .kConnected, [.closed sockfd])
  else return (s, [])

def handleError (s : Connector) : Except Stop (Connector × List ConnectorEvent) := do
  let (s, sockfd) ← s.removeAndResetChannel
  return s.retry sockfd

/-- The callbacks that `connecting` gives to the channel. -/
def callHandler (s : Connector) (err : Errno) (selfConnect : Bool) :
    Handler → Except Stop (Connector × List ConnectorEvent)
  | .error => s.handleError
  | .write => s.handleWrite err selfConnect
  | .close => return (s, [])
  | .read => return (s, [])

def callHandlers (s : Connector) (err : Errno) (selfConnect : Bool) :
    List Handler → Except Stop (Connector × List ConnectorEvent)
  | [] => return (s, [])
  | handler :: rest => do
    let (s', es) ← s.callHandler err selfConnect handler
    let (s'', es') ← s'.callHandlers err selfConnect rest
    return (s'', es ++ es')

def resetChannel (s : Connector) : Connector × List ConnectorEvent :=
  ({ s with channel_ := none, monitored := false }, [.resetChannel])

def start (s : Connector) (ret : Errno) : Connector × List ConnectorEvent :=
  { s with connect_ := true }.startInloop ret

def restart (s : Connector) (ret : Errno) : Connector × List ConnectorEvent :=
  let s := s.setState .kDisconnect
  let (s', es) := { s with retryDelayMs_ := kInitRetryDelay, connect_ := true }.startInloop ret
  (s', .restarted :: es)

def runFunctor (s : Connector) (cb : ConnectorFunctor) (ret : Errno) :
    Connector × List ConnectorEvent :=
  match cb with
  | .startInloop => s.startInloop ret
  | .resetChannel => s.resetChannel

def act (s : Connector) : ConnectorAction → Except Stop (Connector × List ConnectorEvent)
  | .start ret => return s.start ret
  | .startElsewhere => return ({ s with connect_ := true, starting := s.starting + 1 }, [])
  | .queueStart => do
    enabled (0 < s.starting)
    return ({ s with
      starting := s.starting - 1, functors := s.functors ++ [.startInloop] }, [])
  | .stop => return ({ s with connect_ := false }, [])
  | .restart ret => return s.restart ret
  | .timer ret => do
    enabled (0 < s.timers)
    return { s with timers := s.timers - 1 }.startInloop ret
  | .callFunctor ret =>
    match s.functors with
    | [] => throw .disabled
    | cb :: rest => return { s with functors := rest }.runFunctor cb ret
  | .handleEvent revent err selfConnect => do
    -- a channel that has been removed is not polled, and stays in no list of active ones
    enabled (s.monitored = true)
    s.callHandlers err selfConnect (Channel.handleEvent revent)

def step (s : Connector) (a : ConnectorAction) :
    Except Stop (Connector × List ConnectorEvent) := do
  enabled (s.aborted = false)
  s.act a

def machine : Machine Connector ConnectorAction ConnectorEvent where
  init s := s = new
  step := step

end Connector

end TcpNet
