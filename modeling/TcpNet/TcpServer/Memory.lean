import TcpNet.Buffer.Growth
import TcpNet.TcpServer.Stream

open Transition

namespace TcpNet

namespace WfBuffer

/-- The vector of `b'` is that of `b`, or it was made for what `b'` holds. -/
def Grows (b b' : WfBuffer) : Prop := Buffer.Grows b.1 b'.readableBytes b'.1

variable {b b' : WfBuffer}

theorem Grows.of_eq (h : b' = b) : Grows b b' := by
  subst h
  exact .of_length rfl

theorem append_grows (b : WfBuffer) (data : Bytes) : Grows b (b.append data) := by
  have hgrows := Buffer.append_grows b.2 (b.append_eq data)
  have hlength := congrArg List.length (b.contents_append data)
  rw [List.length_append, length_contents, length_contents] at hlength
  rw [Grows, hlength]
  exact hgrows

theorem retrieve_grows {len : Nat} (h : b.retrieve len = .ok b') : Grows b b' := by
  have hgo := attach_eq_ok_iff.mp h
  simp only [Buffer.retrieve, bind_eq_ok_iff, pure_eq_ok_iff] at hgo
  obtain ⟨_, _, hsame⟩ := hgo
  exact .of_length (by rw [← hsame])

end WfBuffer

namespace TcpConnection

open WfBuffer (Grows)

variable {conn conn' : TcpConnection} {here : ThreadId} {effects : List Effect}

/-- A write event takes bytes from the output buffer, or leaves it alone. -/
theorem handleWrite_grows {io : WriteResult}
    (h : conn.handleWrite here io = .ok (conn', effects)) :
    Grows conn.outputBuffer_ conn'.outputBuffer_ := by
  simp only [handleWrite, bind_eq_ok_iff] at h
  obtain ⟨_, _, h⟩ := h
  split at h
  · split at h
    · simp only [bind_eq_ok_iff] at h
      obtain ⟨out, hretrieve, h⟩ := h
      have hgrows := WfBuffer.retrieve_grows hretrieve
      split at h
      · split at h
        · simp only [bind_eq_ok_iff, pure_eq_ok_iff, Prod.mk.injEq, Prod.exists] at h
          obtain ⟨_, _, hshutdown, rfl, _⟩ := h
          obtain ⟨_, rfl, _⟩ := shutdownInloop_eq_ok hshutdown
          exact hgrows
        · obtain ⟨rfl, _⟩ := Prod.mk.inj (pure_eq_ok_iff.mp h)
          exact hgrows
      · obtain ⟨rfl, _⟩ := Prod.mk.inj (pure_eq_ok_iff.mp h)
        exact hgrows
    · obtain ⟨rfl, _⟩ := Prod.mk.inj (pure_eq_ok_iff.mp h)
      exact .of_eq rfl
  · obtain ⟨rfl, _⟩ := Prod.mk.inj (pure_eq_ok_iff.mp h)
    exact .of_eq rfl

/-- A send appends what the kernel has not taken to the output buffer, or leaves it alone. -/
theorem sendInloop_grows {message : Bytes} {io : WriteResult}
    (h : conn.sendInloop here message io = .ok (conn', effects)) :
    Grows conn.outputBuffer_ conn'.outputBuffer_ := by
  simp only [sendInloop, bind_eq_ok_iff] at h
  obtain ⟨_, _, _, _, h⟩ := h
  generalize (if conn.channel_.isWriting = false ∧ conn.outputBuffer_.readableBytes = 0 then
    if io.write message ≥ 0 then
      (io.write message, [Effect.written (message.take (io.write message).toNat)])
    else (0, [])
  else (0, []) : Int × List Effect) = direct at h
  split at h
  · split at h <;> obtain ⟨rfl, _⟩ := Prod.mk.inj (pure_eq_ok_iff.mp h)
    · exact conn.outputBuffer_.append_grows _
    · exact conn.outputBuffer_.append_grows _
  · obtain ⟨rfl, _⟩ := Prod.mk.inj (pure_eq_ok_iff.mp h)
    exact .of_eq rfl

theorem callBack_grows {handler : Handler} {io : IoResult}
    (h : conn.callBack here handler io = .ok (conn', effects)) :
    Grows conn.outputBuffer_ conn'.outputBuffer_ := by
  cases handler with
  | close =>
    obtain ⟨_, _, rfl, _⟩ := handleClose_eq_ok h
    exact .of_eq rfl
  | error =>
    simp only [callBack, handleError, pure_eq_ok_iff, Prod.mk.injEq] at h
    obtain ⟨rfl, _⟩ := h
    exact .of_eq rfl
  | read =>
    obtain ⟨_, ⟨rfl, _⟩ | ⟨_, _, rfl, _⟩⟩ := handleRead_eq_ok h
    · exact .of_eq rfl
    · exact .of_eq rfl
  | write => exact handleWrite_grows h

end TcpConnection

namespace Lifeline

open WfBuffer (Grows)

variable {v v' : Lifeline} {es : List ConnEvent} {label : Label}

theorem run_grows {task : Task} {conn conn' : TcpConnection} {here : ThreadId}
    {io : WriteResult} {effects : List Effect} (h : task.run conn here io = .ok (conn', effects)) :
    Grows conn.outputBuffer_ conn'.outputBuffer_ := by
  cases task with
  | connectEestablished =>
    obtain ⟨_, _, rfl, _⟩ := TcpConnection.connectEestablished_eq_ok h
    exact .of_eq rfl
  | connectDestory =>
    obtain ⟨_, _, rfl, _⟩ := TcpConnection.connectDestory_eq_ok h
    exact .of_eq rfl
  | removeConnectionInLoop => cases h
  | sendInloop caller message => exact TcpConnection.sendInloop_grows h
  | shutdownInloop =>
    obtain ⟨_, rfl, _⟩ := TcpConnection.shutdownInloop_eq_ok h
    exact .of_eq rfl

/-- Each step of the system appends to the output buffer of a connection at most once. -/
theorem step_grows (h : Step label v es v') :
    Grows v.conn.outputBuffer_ v'.conn.outputBuffer_ := by
  cases h with
  | callBack htodo hrun hperform =>
    rw [(performed hperform).conn]
    exact TcpConnection.callBack_grows hrun
  | task htodo hqueue hrun hperform =>
    rw [(performed hperform).conn]
    exact run_grows hrun
  | remove hremovals hremove => exact .of_eq (by rw [(performed_remove hremove).conn])
  | send hstate hrun hperform =>
    rw [(performed hperform).conn]
    exact TcpConnection.sendInloop_grows hrun
  | shutdown hstate hrun hperform =>
    obtain ⟨_, rfl, _⟩ := TcpConnection.shutdownInloop_eq_ok hrun
    exact .of_eq (by rw [(performed hperform).conn])
  | _ => exact .of_eq rfl

theorem born_output (h : Born es v) : v.conn.outputBuffer_ = WfBuffer.new := by
  cases h with
  | queued loop name sockfd => rfl
  | inline loop name sockfd hrun hperform =>
    obtain ⟨_, _, rfl, _⟩ := TcpConnection.connectEestablished_eq_ok hrun
    rw [(performed hperform).conn]
    rfl

/-- No more than `peak` bytes wait in the output buffer when a step begins. -/
def backlogAtMost (peak : Nat) : Condition := fun _ v _ =>
  v.conn.outputBuffer_.readableBytes ≤ peak

instance (peak : Nat) (tr : List ConnEvent) (v : Lifeline) (label : Label) :
    Decidable (backlogAtMost peak tr v label) :=
  Nat.decLe _ _

end Lifeline

namespace System

open Lifeline (backlogAtMost)

/-- Whatever the threads send and however little the sockets take, the output buffer of a
    connection has no more memory than it is made with, or about twice what has ever waited
    in it. -/
theorem output_memory {peak : Nat} {c : ConnId} {tr : List Event} {s : System}
    (h : machine.Reach (keeps (backlogAtMost peak) c) tr s) {conn : TcpConnection}
    (hconn : s.conns c = some conn) :
    conn.outputBuffer_.1.buffer_.length ≤ max (Buffer.kCheapPrepared + Buffer.kInitialSize)
      (2 * max peak conn.outputBuffer_.readableBytes + 7) := by
  have hview := reach_view_of_keeps (I := fun _ v => v.conn.outputBuffer_.1.buffer_.length ≤
    max (Buffer.kCheapPrepared + Buffer.kInitialSize)
      (2 * max peak v.conn.outputBuffer_.readableBytes + 7)) ?_ ?_ h
  · obtain ⟨v, hv, rfl⟩ := exists_view_of_conn (conn_eq_ok_iff.mpr hconn)
    rw [hv] at hview
    exact hview
  · intro es v hborn
    have hnew : WfBuffer.new.1.buffer_.length = Buffer.kCheapPrepared + Buffer.kInitialSize :=
      List.length_replicate
    rw [Lifeline.born_output hborn, hnew]
    exact Nat.le_max_left _ _
  · intro tr v label es v' hbound hpeak hstep
    have hgrown := (Lifeline.step_grows hstep).bound
    have hbacklog : v.conn.outputBuffer_.readableBytes ≤ peak := hpeak
    omega

/-- A second message comes when one byte of the first is left at the end of the vector. -/
theorem output_memory_two : ∃ tr s conn, machine.Reach (keeps (backlogAtMost 2000) 1) tr s ∧
    s.conns 1 = some conn ∧ conn.outputBuffer_.1.buffer_.length = 4008 ∧
    conn.outputBuffer_.1.buffer_.length ≤ max (Buffer.kCheapPrepared + Buffer.kInitialSize)
      (2 * max 2000 conn.outputBuffer_.readableBytes + 7) := by
  have hruns : machine.runsIn (keeps (backlogAtMost 2000) 1) (start [] 1)
      (opening ++ [.send 7 1 (List.replicate 2000 1) (.accepted 0)] ++ queueAndReturn 7 ++
        nextBatch 1 [] [] ++
        [.callFunctor 1 (.accepted 0), .send 7 1 (List.replicate 2000 2) (.accepted 0)] ++
        queueAndReturn 7 ++ nextBatch 1 [(1, POLLOUT)] [⟨.failed 11, .accepted 1999⟩] ++ [.callFunctor 1 (.accepted 0)])
      (fun _ s => (s.conns 1).any fun conn => conn.outputBuffer_.1.buffer_.length = 4008) =
      true := by
    decide +kernel
  obtain ⟨tr, s, hreach, htest⟩ := Machine.exists_reachIn (started_start [] 1) hruns
  obtain ⟨conn, hconn, hlength⟩ := (Option.any_eq_true _ _).mp htest
  exact ⟨tr, s, conn, hreach, hconn, of_decide_eq_true hlength, output_memory hreach hconn⟩

end System

end TcpNet
