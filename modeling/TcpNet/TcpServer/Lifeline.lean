import TcpNet.TcpConnection.Spec
import TcpNet.TcpServer

open Transition

namespace TcpNet

/-- One connection as the rest of the server surrounds it: whether `connects_`
    and the poller of its loop know it, its own functors on its loop and their
    order, its queued removals on the base loop, the handlers still to run for
    it, and the calls that other threads have begun on it. -/
structure Lifeline where
  conn : TcpConnection
  mapped : Bool
  polled : Bool
  queue : List Task
  removals : Nat
  todo : List Handler
  threads : ThreadId → Option Call

namespace Lifeline

/-- The inputs of a step that a condition on steps may speak about. -/
inductive Label where
  | other
  | callBack (io : IoResult)
  | task (io : WriteResult)
  | send (t : ThreadId) (message : Bytes) (io : WriteResult)
  | shutdown (t : ThreadId)

/-- A connection that nobody knows yet. -/
def new (loop : LoopId) (name : Name) (sockfd : Int) : Lifeline where
  conn := TcpConnection.new loop name sockfd
  mapped := true
  polled := false
  queue := []
  removals := 0
  todo := []
  threads := fun _ => none

def setThread (v : Lifeline) (t : ThreadId) (call : Option Call) : Lifeline :=
  { v with threads := Function.update v.threads t call }

def removeConnectionInLoop (v : Lifeline) : Lifeline × List ConnEvent :=
  if v.mapped then
    ({ v with mapped := false, queue := v.queue ++ [.connectDestory] }, [.erased, .destroyQueued])
  else (v, [])

def performOne (v : Lifeline) (here : ThreadId) : Effect → Lifeline × List ConnEvent
  | .updateChannel => ({ v with polled := true }, [])
  | .removeChannel => ({ v with polled := false }, [])
  | .closeCallBack =>
    if here = baseLoop then v.removeConnectionInLoop
    else ({ v with removals := v.removals + 1 }, [])
  | _ => (v, [])

/-- Carry out what the connection asked for, in thread `here`. -/
def perform (v : Lifeline) (here : ThreadId) : List Effect → Lifeline × List ConnEvent
  | [] => (v, [])
  | effect :: rest =>
    let (v, first) := v.performOne here effect
    let (v, others) := v.perform here rest
    (v, .effect effect :: first ++ others)

/-- How a connection comes to be: its first functor is queued, or runs at once on
    the base loop. -/
inductive Born : List ConnEvent → Lifeline → Prop
  | queued (loop : LoopId) (name : Name) (sockfd : Int) :
    Born [.accepted] { new loop name sockfd with queue := [.connectEestablished] }
  | inline (loop : LoopId) (name : Name) (sockfd : Int) {conn : TcpConnection}
      {effects : List Effect} {v : Lifeline} {es : List ConnEvent}
      (hrun : (new loop name sockfd).conn.connectEestablished loop = .ok (conn, effects))
      (hperform : { new loop name sockfd with conn := conn }.perform loop effects = (v, es)) :
    Born (.accepted :: .established :: es) v

/-- What a step of the system can do to one connection that exists. -/
inductive Step : Label → Lifeline → List ConnEvent → Lifeline → Prop
  | other {v : Lifeline} : Step .other v [] v
  | poll {v : Lifeline} (handlers : List Handler) (hpolled : handlers ≠ [] → v.polled = true)
      (htodo : v.todo = []) : Step .other v [] { v with todo := handlers }
  | callBack {v v' : Lifeline} {handler : Handler} {rest : List Handler} {io : IoResult}
      {conn : TcpConnection} {effects : List Effect} {es : List ConnEvent}
      (htodo : v.todo = handler :: rest)
      (hrun : v.conn.callBack v.conn.loop_ handler io = .ok (conn, effects))
      (hperform : { v with todo := rest, conn := conn }.perform v.conn.loop_ effects = (v', es)) :
    Step (.callBack io) v (.handler handler :: es) v'
  | task {v v' : Lifeline} {task : Task} {rest : List Task} {io : WriteResult}
      {conn : TcpConnection} {effects : List Effect} {es : List ConnEvent}
      (htodo : v.todo = []) (hqueue : v.queue = task :: rest)
      (hrun : task.run v.conn v.conn.loop_ io = .ok (conn, effects))
      (hperform : { v with queue := rest, conn := conn }.perform v.conn.loop_ effects = (v', es)) :
    Step (.task io) v (task.events ++ es) v'
  | remove {v v' : Lifeline} {removals : Nat} {es : List ConnEvent}
      (hremovals : v.removals = removals + 1)
      (hremove : { v with removals := removals }.removeConnectionInLoop = (v', es)) :
    Step .other v es v'
  | send {v v' : Lifeline} {message : Bytes} {io : WriteResult} {conn : TcpConnection}
      {effects : List Effect} {es : List ConnEvent} (hstate : v.conn.state_ = .kConnected)
      (hrun : v.conn.sendInloop v.conn.loop_ message io = .ok (conn, effects))
      (hperform : { v with conn := conn }.perform v.conn.loop_ effects = (v', es)) :
    Step (.send v.conn.loop_ message io) v
      ([.sending v.conn.loop_ message, .executed v.conn.loop_ message] ++ es ++
        [.sent v.conn.loop_ message]) v'
  | beginSend {v : Lifeline} {t : ThreadId} {message : Bytes} {io : WriteResult}
      (hstate : v.conn.state_ = .kConnected) (hforeign : t ≠ v.conn.loop_)
      (hidle : v.threads t = none) :
    Step (.send t message io) v [.sending t message] (v.setThread t (some (.sending message)))
  | noSend {v : Lifeline} {t : ThreadId} {message : Bytes} {io : WriteResult}
      (hstate : v.conn.state_ ≠ .kConnected) : Step (.send t message io) v [] v
  | queueSend {v : Lifeline} {t : ThreadId} {message : Bytes}
      (hcall : v.threads t = some (.sending message)) :
    Step .other v []
      { v.setThread t (some (.queued message)) with queue := v.queue ++ [.sendInloop t message] }
  | wakeupSend {v : Lifeline} {t : ThreadId} {message : Bytes}
      (hcall : v.threads t = some (.queued message)) :
    Step .other v [] (v.setThread t (some (.woken message)))
  | returnSend {v : Lifeline} {t : ThreadId} {message : Bytes}
      (hcall : v.threads t = some (.woken message)) :
    Step .other v [.sent t message] (v.setThread t none)
  | shutdown {v v' : Lifeline} {conn : TcpConnection} {effects : List Effect}
      {es : List ConnEvent} (hstate : v.conn.state_ = .kConnected)
      (hrun : { v.conn with state_ := .kDisconnecting }.shutdownInloop v.conn.loop_ =
        .ok (conn, effects))
      (hperform : { v with conn := conn }.perform v.conn.loop_ effects = (v', es)) :
    Step (.shutdown v.conn.loop_) v (.disconnecting :: es) v'
  | beginShutdown {v : Lifeline} {t : ThreadId} (hstate : v.conn.state_ = .kConnected)
      (hforeign : t ≠ v.conn.loop_) (hidle : v.threads t = none) :
    Step (.shutdown t) v [] (v.setThread t (some .stopping))
  | noShutdown {v : Lifeline} {t : ThreadId} (hstate : v.conn.state_ ≠ .kConnected) :
    Step (.shutdown t) v [] v
  | setDisconnecting {v : Lifeline} {t : ThreadId} (hcall : v.threads t = some .stopping) :
    Step .other v [.disconnecting]
      { v.setThread t (some .stopped) with conn := { v.conn with state_ := .kDisconnecting } }
  | queueShutdown {v : Lifeline} {t : ThreadId} (hcall : v.threads t = some .stopped) :
    Step .other v []
      { v.setThread t (some .stopQueued) with queue := v.queue ++ [.shutdownInloop] }
  | wakeupShutdown {v : Lifeline} {t : ThreadId} (hcall : v.threads t = some .stopQueued) :
    Step .other v [] (v.setThread t none)
  | retrieve {v : Lifeline} (inputBuffer : WfBuffer) :
    Step .other v [] { v with conn := { v.conn with inputBuffer_ := inputBuffer } }

end Lifeline

namespace System

/-- The functors of connection `c` in a queue, less the removals, which run on
    another loop. -/
def tasksOf (c : ConnId) (queue : List Functor) : List Task :=
  queue.filterMap fun cb =>
    if cb.conn = c ∧ cb.task ≠ .removeConnectionInLoop then some cb.task else none

def removalsOf (c : ConnId) (queue : List Functor) : Nat :=
  queue.count ⟨c, .removeConnectionInLoop⟩

def handlersFor (c : ConnId) (callbacks : List (ConnId × Handler)) : List Handler :=
  callbacks.filterMap fun entry => if entry.1 = c then some entry.2 else none

def callOf (c : ConnId) (call : Option (ConnId × Call)) : Option Call :=
  call.bind fun entry => if entry.1 = c then some entry.2 else none

/-- Connection `c` in the system, once it is there. -/
def view (c : ConnId) (s : System) : Option Lifeline :=
  (s.conns c).map fun conn =>
    { conn := conn
      mapped := s.server.connects_ conn.name_ == some c
      polled := s.polled c
      queue := tasksOf c (s.loops conn.loop_).queued
      removals := removalsOf c (s.loops baseLoop).queued
      todo := handlersFor c (s.callbacks conn.loop_)
      threads := fun t => callOf c (s.threads t) }

/-- The step of connection `c` in a step of the system. -/
def labelOf (c : ConnId) (s : System) : Action → Lifeline.Label
  | .handleEvent l io =>
    match s.callbacks l with
    | (c', _) :: _ => if c' = c then .callBack io else .other
    | [] => .other
  | .callFunctor l io =>
    match (s.loops l).functors with
    | ⟨c', task⟩ :: _ => if c' = c ∧ task ≠ .removeConnectionInLoop then .task io else .other
    | [] => .other
  | .send t c' message io => if c' = c then .send t message io else .other
  | .shutdown t c' => if c' = c then .shutdown t else .other
  | _ => .other

end System

end TcpNet
