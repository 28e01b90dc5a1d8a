import TcpNet.TcpConnection.Spec

open Transition

namespace TcpNet

/-- The calls of a connection's member functions that do not come from its channel.
    `sendInloop` and `shutdownInloop` run as functors here, for a `send` or `shutdown` in
    another thread, and `setDisconnecting` is the first half of such a `shutdown`: each of
    them comes when that thread has found the connection established. -/
inductive ConnCall where
  | connectEestablished
  | connectDestory
  | send (message : Bytes) (io : WriteResult)
  | sendInloop (message : Bytes) (io : WriteResult)
  | shutdown
  | setDisconnecting
  | shutdownInloop
  deriving DecidableEq

namespace TcpConnection

/-- `send` in the thread of the loop. -/
def send (conn : TcpConnection) (here : ThreadId) (message : Bytes) (io : WriteResult) :
    Except Stop (TcpConnection × List Effect) :=
  if conn.state_ = .kConnected then conn.sendInloop here message io else return (conn, [])

/-- `shutdown` in the thread of the loop. -/
def shutdown (conn : TcpConnection) (here : ThreadId) :
    Except Stop (TcpConnection × List Effect) :=
  if conn.state_ = .kConnected then { conn with state_ := .kDisconnecting }.shutdownInloop here
  else return (conn, [])

def call (conn : TcpConnection) : ConnCall → Except Stop (TcpConnection × List Effect)
  | .connectEestablished => conn.connectEestablished conn.loop_
  | .connectDestory => conn.connectDestory conn.loop_
  | .send message io => conn.send conn.loop_ message io
  | .sendInloop message io => do
    enabled (conn.state_ ≠ .kConnecting)
    conn.sendInloop conn.loop_ message io
  | .shutdown => conn.shutdown conn.loop_
  | .setDisconnecting => do
    enabled (conn.state_ ≠ .kConnecting)
    return ({ conn with state_ := .kDisconnecting }, [])
  | .shutdownInloop => do
    enabled (conn.state_ ≠ .kConnecting)
    conn.shutdownInloop conn.loop_

/-- What a call comes to, by the function that does the work. -/
inductive Called (conn : TcpConnection) : ConnCall → List Effect → TcpConnection → Prop
  | established (hstate : conn.state_ = .kConnecting) :
      Called conn .connectEestablished [.updateChannel, .connectionCallBack .kConnected]
        { conn with state_ := .kConnected, channel_ := conn.channel_.enableReading }
  | destroyed : Called conn .connectDestory
      [.updateChannel, .connectionCallBack .kDisconnected, .removeChannel]
      { conn with state_ := .kDisconnected, channel_ := conn.channel_.disableAll }
  | send {conn' : TcpConnection} {effects : List Effect} {message : Bytes} {io : WriteResult}
      (hstate : conn.state_ = .kConnected) (hsend : SendInloop conn message io conn' effects) :
      Called conn (.send message io) effects conn'
  | sendInloop {conn' : TcpConnection} {effects : List Effect} {message : Bytes}
      {io : WriteResult} (hstate : conn.state_ ≠ .kConnecting)
      (hsend : SendInloop conn message io conn' effects) :
      Called conn (.sendInloop message io) effects conn'
  | nothing {c : ConnCall} : Called conn c [] conn
  | disconnecting {c : ConnCall} {effects : List Effect} (hstate : conn.state_ ≠ .kConnecting)
      (heffects : effects = [] ∨ effects = [.shutdownWrite]) :
      Called conn c effects { conn with state_ := .kDisconnecting }
  | shutdownWrite {c : ConnCall} : Called conn c [.shutdownWrite] conn

theorem call_cases {conn conn' : TcpConnection} {c : ConnCall} {effects : List Effect}
    (h : conn.call c = .ok (conn', effects)) : Called conn c effects conn' := by
  cases c with
  | connectEestablished =>
    obtain ⟨_, hstate, rfl, rfl⟩ := connectEestablished_eq_ok h
    exact .established hstate
  | connectDestory =>
    obtain ⟨_, _, rfl, rfl⟩ := connectDestory_eq_ok h
    exact .destroyed
  | send message io =>
    simp only [call, send] at h
    split at h
    · rename_i hstate
      exact .send hstate (sendInloop_eq_ok h).2
    · rw [pure_eq_ok_iff, Prod.mk.injEq] at h
      obtain ⟨rfl, rfl⟩ := h
      exact .nothing
  | sendInloop message io =>
    simp only [call, bind_eq_ok_iff, enabled_eq_ok_iff] at h
    obtain ⟨_, hstate, h⟩ := h
    exact .sendInloop hstate (sendInloop_eq_ok h).2
  | shutdown =>
    simp only [call, shutdown] at h
    split at h
    · rename_i hstate
      obtain ⟨_, rfl, rfl⟩ := shutdownInloop_eq_ok h
      exact .disconnecting (by simp [hstate]) (by split <;> simp)
    · rw [pure_eq_ok_iff, Prod.mk.injEq] at h
      obtain ⟨rfl, rfl⟩ := h
      exact .nothing
  | setDisconnecting =>
    simp only [call, bind_eq_ok_iff, enabled_eq_ok_iff, pure_eq_ok_iff, Prod.mk.injEq] at h
    obtain ⟨_, hstate, rfl, rfl⟩ := h
    exact .disconnecting hstate (.inl rfl)
  | shutdownInloop =>
    simp only [call, bind_eq_ok_iff] at h
    obtain ⟨_, _, h⟩ := h
    obtain ⟨_, rfl, rfl⟩ := shutdownInloop_eq_ok h
    split
    · exact .shutdownWrite
    · exact .nothing

end TcpConnection

end TcpNet
