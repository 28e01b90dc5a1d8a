import TcpNet.EventLoop.Delivery
import TcpNet.TcpConnection
import Mathlib.Data.Nat.Digits.Defs
import Mathlib.Logic.Function.Basic

open Transition

namespace TcpNet

/-- A connection object, by the value of `nextConnId_` it was made with. -/
abbrev ConnId := Nat

/-- The member functions that travel through functor queues. -/
inductive Task where
  | connectEestablished
  | connectDestory
  | removeConnectionInLoop
  | sendInloop (caller : ThreadId) (message : Bytes)
  | shutdownInloop
  deriving DecidableEq

/-- A bound functor. The thread that called `send` is kept for the statements
    only: no function looks at it. -/
structure Functor where
  conn : ConnId
  task : Task
  deriving DecidableEq

/-- Where a call of `send` or `shutdown` from outside the loop stands: it found
    `kConnected`, `shutdown` has set `kDisconnecting`, the functor is in the queue, or
    the loop is woken up as well and `send` is about to return. -/
inductive Call where
  | sending (message : Bytes)
  | queued (message : Bytes)
  | woken (message : Bytes)
  | stopping
  | stopped
  | stopQueued
  deriving DecidableEq

/-- The loop of the acceptor, in the thread of the same number. -/
def baseLoop : LoopId := 0

/-- A started pool. -/
structure EventLoopThreadPool where
  loops_ : List LoopId
  next_ : Nat
  next_lt : loops_ ≠ [] → next_ < loops_.length

namespace EventLoopThreadPool

/-- `start` with `numThreads_` threads: their loops are numbered from one on. -/
def start (numThreads : Nat) : EventLoopThreadPool where
  loops_ := (List.range numThreads).map (· + 1)
  next_ := 0
  next_lt := fun h => List.length_pos_iff.mpr h

/-- The loop for the next connection, round robin over the pool. -/
def getNextLoop (pool : EventLoopThreadPool) : LoopId × EventLoopThreadPool :=
  if h : pool.loops_ = [] then (baseLoop, pool)
  else (pool.loops_.get ⟨pool.next_, pool.next_lt h⟩,
    { loops_ := pool.loops_
      next_ := if pool.loops_.length ≤ pool.next_ + 1 then 0 else pool.next_ + 1
      next_lt := fun h => by
        have hpos := List.length_pos_iff.mpr h
        split <;> omega })

end EventLoopThreadPool

structure TcpServer where
  name_ : Name
  threadpoll_ : EventLoopThreadPool
  nextConnId_ : Nat
  connects_ : Name → Option ConnId

/-- The largest `int`. -/
def intMax : Nat := 2 ^ 31 - 1

/-- `name_` followed by `"#%d"`. -/
def connName (name : Name) (id : Nat) : Name := name ++ '#' :: Nat.toDigits 10 id

/-- A server with all its loops, the connections it ever made, and the threads in a
    call of `send` or `shutdown` on one. Such a thread holds a `TcpConnectionPtr`, and
    no connection is freed here. `callbacks` are the handlers still to run for the
    active channels of a loop, `polled` the channels its poller has registered. -/
structure System where
  server : TcpServer
  loops : LoopId → EventLoop Functor
  callbacks : LoopId → List (ConnId × Handler)
  conns : ConnId → Option TcpConnection
  polled : ConnId → Bool
  threads : ThreadId → Option (ConnId × Call)

/-- What can be seen of one connection. `erased` is its removal from `connects_`.
    A `send` is seen where it finds `kConnected` and where it returns. -/
inductive ConnEvent where
  | accepted
  | established
  | handler (handler : Handler)
  | erased
  | destroyQueued
  | destroyed
  | sending (caller : ThreadId) (message : Bytes)
  | sent (caller : ThreadId) (message : Bytes)
  | executed (caller : ThreadId) (message : Bytes)
  | disconnecting
  | effect (effect : Effect)
  deriving DecidableEq

abbrev Event := ConnId × ConnEvent

/-- A thread takes one step: the thread of a loop in `loop()` or in user code
    called from there, or any other thread in a call of `send` or `shutdown`. -/
inductive Action where
  | loop (l : LoopId)
  | pollReturns (l : LoopId) (active : List (ConnId × Events))
  | handleWakeup (l : LoopId)
  | accept (sockfd : Int)
  | handleEvent (l : LoopId) (io : IoResult)
  | enterPending (l : LoopId)
  | swapPending (l : LoopId)
  | callFunctor (l : LoopId) (io : WriteResult)
  | leavePending (l : LoopId)
  | send (t : ThreadId) (c : ConnId) (message : Bytes) (io : WriteResult)
  | queueSend (t : ThreadId)
  | wakeupSend (t : ThreadId)
  | returnSend (t : ThreadId)
  | shutdown (t : ThreadId) (c : ConnId)
  | setDisconnecting (t : ThreadId)
  | queueShutdown (t : ThreadId)
  | wakeupShutdown (t : ThreadId)
  | retrieve (c : ConnId) (len : Nat)

/-- What a functor that runs on its connection leaves in the trace first. -/
def Task.events : Task → List ConnEvent
  | .connectEestablished => [.established]
  | .connectDestory => [.destroyed]
  | .removeConnectionInLoop => []
  | .sendInloop caller message => [.executed caller message]
  | .shutdownInloop => []

/-- Call the member function of the connection that the functor is bound to. -/
def Task.run (task : Task) (conn : TcpConnection) (here : ThreadId) (io : WriteResult) :
    Except Stop (TcpConnection × List Effect) :=
  match task with
  | .connectEestablished => conn.connectEestablished here
  | .connectDestory => conn.connectDestory here
  | .removeConnectionInLoop => throw .disabled
  | .sendInloop _ message => conn.sendInloop here message io
  | .shutdownInloop => conn.shutdownInloop here

namespace System

def conn (s : System) (c : ConnId) : Except Stop TcpConnection :=
  match s.conns c with
  | some conn => return conn
  | none => throw .disabled

def loopOf (s : System) (c : ConnId) : Option LoopId := (s.conns c).map (·.loop_)

def setConn (s : System) (c : ConnId) (conn : TcpConnection) : System :=
  { s with conns := Function.update s.conns c (some conn) }

def setPolled (s : System) (c : ConnId) (polled : Bool) : System :=
  { s with polled := Function.update s.polled c polled }

def setLoop (s : System) (l : LoopId) (loop : EventLoop Functor) : System :=
  { s with loops := Function.update s.loops l loop }

def setCallbacks (s : System) (l : LoopId) (callbacks : List (ConnId × Handler)) : System :=
  { s with callbacks := Function.update s.callbacks l callbacks }

def setThread (s : System) (t : ThreadId) (call : Option (ConnId × Call)) : System :=
  { s with threads := Function.update s.threads t call }

def setConnects (s : System) (name : Name) (entry : Option ConnId) : System :=
  { s with server := { s.server with connects_ := Function.update s.server.connects_ name entry } }

/-- The first half of `queueInloop` on loop `l`. -/
def pushBack (s : System) (l : LoopId) (cb : Functor) : System :=
  s.setLoop l ((s.loops l).pushBack cb)

/-- The second half, in thread `here`. -/
def wakeupIfNeeded (s : System) (here : ThreadId) (l : LoopId) : System :=
  s.setLoop l ((s.loops l).wakeupIfNeeded (here = l))

/-- `queueInloop` on loop `l`, called in thread `here`. -/
def queueInloop (s : System) (here : ThreadId) (l : LoopId) (cb : Functor) : System :=
  s.setLoop l ((s.loops l).queueInloop (here = l) cb)

def removeConnectionInLoop (s : System) (here : ThreadId) (c : ConnId) :
    Except Stop (System × List Event) := do
  require (here = baseLoop)
  let conn ← s.conn c
  match s.server.connects_ conn.name_ with
  | none => return (s, [])
  | some erased =>
    return ((s.setConnects conn.name_ none).queueInloop here conn.loop_ ⟨c, .connectDestory⟩,
      [(erased, .erased), (c, .destroyQueued)])

/-- `loop_->runInLoop` of `removeConnectionInLoop`. -/
def removeConnection (s : System) (here : ThreadId) (c : ConnId) :
    Except Stop (System × List Event) :=
  if here = baseLoop then s.removeConnectionInLoop here c
  else return (s.queueInloop here baseLoop ⟨c, .removeConnectionInLoop⟩, [])

def performOne (s : System) (here : ThreadId) (c : ConnId) :
    Effect → Except Stop (System × List Event)
  -- behind `removeChannel` only the `Epoller` takes the channel back, while the default
  -- `Poller` fails its assertion there
  | .updateChannel => return (s.setPolled c true, [])
  | .removeChannel => return (s.setPolled c false, [])
  | .closeCallBack => s.removeConnection here c
  | _ => return (s, [])

/-- Carry out what connection `c` asked for, in thread `here`. -/
def perform (s : System) (here : ThreadId) (c : ConnId) :
    List Effect → Except Stop (System × List Event)
  | [] => return (s, [])
  | effect :: rest => do
    let (s, first) ← s.performOne here c effect
    let (s, others) ← s.perform here c rest
    return (s, (c, .effect effect) :: first ++ others)

/-- Call a member function of connection `c` in thread `here`. -/
def call (s : System) (here : ThreadId) (c : ConnId)
    (f : TcpConnection → Except Stop (TcpConnection × List Effect)) :
    Except Stop (System × List Event) := do
  let (conn, effects) ← f (← s.conn c)
  (s.setConn c conn).perform here c effects

/-- Call `f`, with `events` in front of what it leaves in the trace. -/
def callAfter (s : System) (here : ThreadId) (c : ConnId) (events : List ConnEvent)
    (f : TcpConnection → Except Stop (TcpConnection × List Effect)) :
    Except Stop (System × List Event) := do
  let (s, others) ← s.call here c f
  return (s, events.map (c, ·) ++ others)

/-- `newConnection` in thread `here`. Past `intMax` the counter has no next value. -/
def newConnection (s : System) (here : ThreadId) (sockfd : Int) :
    Except Stop (System × List Event) := do
  require (here = baseLoop)
  enabled (s.server.nextConnId_ < intMax)
  let c := s.server.nextConnId_
  let name := connName s.server.name_ c
  let (ioLoop, pool) := s.server.threadpoll_.getNextLoop
  let s := { s with
    server := { s.server with
      nextConnId_ := c + 1
      threadpoll_ := pool
      connects_ := Function.update s.server.connects_ name (some c) }
    conns := Function.update s.conns c (some (TcpConnection.new ioLoop name sockfd)) }
  if here = ioLoop then
    s.callAfter here c [.accepted, .established] (·.connectEestablished here)
  else
    return (s.queueInloop here ioLoop ⟨c, .connectEestablished⟩, [(c, .accepted)])

/-- Run one functor in the thread of its loop. -/
def runFunctor (s : System) (here : ThreadId) (cb : Functor) (io : WriteResult) :
    Except Stop (System × List Event) :=
  match cb.task with
  | .removeConnectionInLoop => s.removeConnectionInLoop here cb.conn
  | task => s.callAfter here cb.conn task.events (task.run · here io)

/-- The poller of loop `l` has the channel of connection `c`. -/
def Registered (s : System) (l : LoopId) (c : ConnId) : Prop :=
  s.polled c = true ∧ s.loopOf c = some l

instance (s : System) (l : LoopId) (c : ConnId) : Decidable (s.Registered l c) :=
  inferInstanceAs (Decidable (_ ∧ _))

/-- The handlers that loop `l` runs for its active channels, one channel after
    the other. -/
def handlersOf (active : List (ConnId × Events)) : List (ConnId × Handler) :=
  active.flatMap fun (c, revents) => (Channel.handleEvent revents).map (c, ·)

/-- `send` from thread `t`. Outside the loop it only looks at the state here. -/
def send (s : System) (t : ThreadId) (c : ConnId) (message : Bytes) (io : WriteResult) :
    Except Stop (System × List Event) := do
  let conn ← s.conn c
  if conn.state_ = .kConnected then
    if t = conn.loop_ then
      let (s, es) ← s.callAfter t c [.sending t message, .executed t message]
        (·.sendInloop t message io)
      return (s, es ++ [(c, .sent t message)])
    else
      return (s.setThread t (some (c, .sending message)), [(c, .sending t message)])
  else
    return (s, [])

/-- `shutdown` from thread `t`. Outside the loop it only looks at the state here. -/
def shutdown (s : System) (t : ThreadId) (c : ConnId) : Except Stop (System × List Event) := do
  let conn ← s.conn c
  if conn.state_ = .kConnected then
    if t = conn.loop_ then
      s.callAfter t c [.disconnecting]
        (fun conn => { conn with state_ := .kDisconnecting }.shutdownInloop t)
    else
      return (s.setThread t (some (c, .stopping)), [])
  else
    return (s, [])

/-- User code runs in thread `t`: always, or, in the thread of a loop that has a
    say about connection `c`, in the callbacks of that loop. -/
def RunsUser (s : System) (t : ThreadId) (c : ConnId) : Prop :=
  s.threads t = none ∧ (s.loopOf c = some t → EventLoop.RunsUserCode (s.loops t).phase)

instance (s : System) (t : ThreadId) (c : ConnId) : Decidable (s.RunsUser t c) :=
  inferInstanceAs (Decidable (_ ∧ _))

/-- One step. Which channels `poll` reports, with which events, is left open. -/
def step (s : System) : Action → Except Stop (System × List Event)
  | .loop l => return (s.setLoop l (← (s.loops l).loop), [])
  | .pollReturns l active => do
    let loop ← (s.loops l).pollReturns
    enabled (∀ entry ∈ active, s.Registered l entry.1)
    return ((s.setLoop l loop).setCallbacks l (handlersOf active), [])
  | .handleWakeup l => do
    enabled ((s.loops l).phase = .dispatching)
    return (s.setLoop l (s.loops l).handleRead, [])
  | .accept sockfd => do
    enabled ((s.loops baseLoop).phase = .dispatching)
    s.newConnection baseLoop sockfd
  | .handleEvent l io =>
    match s.callbacks l with
    | [] => throw .disabled
    | (c, handler) :: rest =>
      (s.setCallbacks l rest).callAfter l c [.handler handler] (·.callBack l handler io)
  | .enterPending l => do
    enabled (s.callbacks l = [])
    return (s.setLoop l (← (s.loops l).enterPending), [])
  | .swapPending l => return (s.setLoop l (← (s.loops l).swapPending), [])
  | .callFunctor l io => do
    let (cb, loop) ← (s.loops l).nextFunctor
    (s.setLoop l loop).runFunctor l cb io
  | .leavePending l => return (s.setLoop l (← (s.loops l).leavePending), [])
  | .send t c message io => do
    enabled (s.RunsUser t c)
    s.send t c message io
  | .queueSend t =>
    match s.threads t with
    | some (c, .sending message) => do
      let conn ← s.conn c
      return ((s.setThread t (some (c, .queued message))).pushBack conn.loop_
        ⟨c, .sendInloop t message⟩, [])
    | _ => throw .disabled
  | .wakeupSend t =>
    match s.threads t with
    | some (c, .queued message) => do
      let conn ← s.conn c
      return ((s.setThread t (some (c, .woken message))).wakeupIfNeeded t conn.loop_, [])
    | _ => throw .disabled
  | .returnSend t =>
    match s.threads t with
    | some (c, .woken message) => return (s.setThread t none, [(c, .sent t message)])
    | _ => throw .disabled
  | .shutdown t c => do
    enabled (s.RunsUser t c)
    s.shutdown t c
  | .setDisconnecting t =>
    match s.threads t with
    | some (c, .stopping) => do
      let conn ← s.conn c
      return ((s.setThread t (some (c, .stopped))).setConn c { conn with state_ := .kDisconnecting },
        [(c, .disconnecting)])
    | _ => throw .disabled
  | .queueShutdown t =>
    match s.threads t with
    | some (c, .stopped) => do
      let conn ← s.conn c
      return ((s.setThread t (some (c, .stopQueued))).pushBack conn.loop_ ⟨c, .shutdownInloop⟩, [])
    | _ => throw .disabled
  | .wakeupShutdown t =>
    match s.threads t with
    | some (c, .stopQueued) => do
      let conn ← s.conn c
      return ((s.setThread t none).wakeupIfNeeded t conn.loop_, [])
    | _ => throw .disabled
  | .retrieve c len => do
    let conn ← s.conn c
    enabled (EventLoop.RunsUserCode (s.loops conn.loop_).phase ∧
      len ≤ conn.inputBuffer_.readableBytes)
    return (s.setConn c { conn with inputBuffer_ := ← conn.inputBuffer_.retrieve len }, [])

/-- The server right after `start()`, before any connection. -/
structure Started (s : System) : Prop where
  server : ∃ name numThreads, s.server =
    { name_ := name, threadpoll_ := .start numThreads, nextConnId_ := 1, connects_ := fun _ => none }
  loops : ∀ l, ∃ garbage, s.loops l = EventLoop.new garbage
  callbacks : s.callbacks = fun _ => []
  conns : s.conns = fun _ => none
  polled : s.polled = fun _ => false
  threads : s.threads = fun _ => none

/-- A server with `numThreads` io loops whose memory was zero before. -/
def start (name : Name) (numThreads : Nat) : System where
  server := { name_ := name, threadpoll_ := .start numThreads, nextConnId_ := 1,
              connects_ := fun _ => none }
  loops := fun _ => EventLoop.new false
  callbacks := fun _ => []
  conns := fun _ => none
  polled := fun _ => false
  threads := fun _ => none

theorem started_start (name : Name) (numThreads : Nat) : Started (start name numThreads) :=
  ⟨⟨name, numThreads, rfl⟩, fun _ => ⟨false, rfl⟩, rfl, rfl, rfl, rfl⟩

def machine : Machine System Action Event where
  init := Started
  step := step

/-- The events of one connection. -/
def eventsOf (c : ConnId) (events : List Event) : List ConnEvent :=
  events.filterMap fun e => if e.1 = c then some e.2 else none

end System

end TcpNet
