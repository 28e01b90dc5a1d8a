import TcpNet.Application.Farewell
import TcpNet.Application.Echo

open Transition Trace

namespace TcpNet

namespace TcpConnection

variable {conn : TcpConnection}

/-- A write event for which the kernel takes `n + 1` bytes, or all that wait if these are
    fewer. -/
theorem handleWrite_accepted (hwriting : conn.channel_.isWriting = true)
    (hsome : conn.outputBuffer_.contents ≠ []) (n : Nat) :
    ∃ conn' effects, conn.handleWrite conn.loop_ (.accepted (n + 1)) = .ok (conn', effects) ∧
      HandleWrite conn (.accepted (n + 1)) conn' effects ∧
      conn'.outputBuffer_.contents = conn.outputBuffer_.contents.drop (n + 1) := by
  obtain ⟨⟨conn', effects⟩, hgo⟩ :
      ∃ out, conn.handleWrite conn.loop_ (.accepted (n + 1)) = .ok out :=
    handleWrite_goes_through _ rfl
  refine ⟨conn', effects, hgo, (handleWrite_eq_ok hgo).2, ?_⟩
  have hlength : 0 < conn.outputBuffer_.contents.length := List.length_pos_iff.mpr hsome
  have hn : WriteResult.write (.accepted (n + 1)) conn.outputBuffer_.contents =
      ((min (n + 1) conn.outputBuffer_.contents.length : Nat) : Int) := rfl
  have hpositive : ((min (n + 1) conn.outputBuffer_.contents.length : Nat) : Int) > 0 := by omega
  have hdrop : conn.outputBuffer_.contents.drop (min (n + 1) conn.outputBuffer_.contents.length) =
      conn.outputBuffer_.contents.drop (n + 1) :=
    List.drop_eq_drop_iff.mpr (by omega)
  simp only [handleWrite, assertInLoopThread, bind_eq_ok_iff, require_eq_ok_iff, if_pos hwriting,
    hn, if_pos hpositive, Int.toNat_natCast] at hgo
  obtain ⟨_, _, out, hretrieve, hgo⟩ := hgo
  have hout := (WfBuffer.retrieve_eq_ok hretrieve).2
  rw [← hdrop, ← hout]
  split at hgo
  · split at hgo
    · simp only [bind_eq_ok_iff, pure_eq_ok_iff] at hgo
      obtain ⟨⟨conn₁, effects₁⟩, hshutdown, heq⟩ := hgo
      obtain ⟨rfl, _⟩ := Prod.mk.inj heq
      obtain ⟨_, rfl, _⟩ := shutdownInloop_eq_ok hshutdown
      rfl
    · rw [pure_eq_ok_iff, Prod.mk.injEq] at hgo
      rw [← hgo.1]
  · rw [pure_eq_ok_iff, Prod.mk.injEq] at hgo
    rw [← hgo.1]

end TcpConnection

namespace Session

open TcpConnection SessionEvent

variable {A I E : Type} {app : Application A I E} {s s' : Session A}
  {tr es : List (SessionEvent I E)}

/-- The poller reports that there is room, and the kernel takes `n + 1` bytes, or all that
    wait. -/
def writeEvent (input : I) (n : Nat) : List (SessionAction I) :=
  [.poll POLLOUT, .handle ⟨.failed 0, .accepted (n + 1)⟩ input (fun _ => .failed 0)]

/-- A connection that is open, in the loop of its thread between two polls. -/
structure Resting (s : Session A) : Prop where
  idle : s.handlers = []
  opened : s.closing = false
  state : s.conn.state_ = .kConnected ∨ s.conn.state_ = .kDisconnecting

theorem Resting.attentive (h : s.Resting) (hreach : (machine app).Reach anyStep tr s) :
    Attentive tr s.conn := by
  refine (reach_alert hreach).attentive h.opened fun hconnecting => ?_
  rcases h.state with hstate | hstate <;> rw [hstate] at hconnecting <;> cases hconnecting

/-- As long as output waits, a write event goes through and moves some of it. -/
theorem Resting.writeEvent (h : s.Resting) (hreach : (machine app).Reach anyStep tr s)
    (hsome : s.conn.outputBuffer_.contents ≠ []) (input : I) (n : Nat) :
    ∃ s' es, (machine app).exec s (writeEvent input n) = .ok (s', es) ∧ s'.Resting ∧
      s'.conn.state_ = s.conn.state_ ∧ wire es = s.conn.outputBuffer_.contents.take (n + 1) ∧
      s'.conn.outputBuffer_.contents = s.conn.outputBuffer_.contents.drop (n + 1) := by
  have hinterested := (h.attentive hreach).interested
  obtain ⟨conn, effects, hgo, hwrite, hdrop⟩ :=
    handleWrite_accepted (hinterested.writing.mpr hsome) hsome n
  have hrun : s.conn.callBack s.conn.loop_ .write ⟨.failed 0, .accepted (n + 1)⟩ =
      .ok (conn, effects) := hgo
  obtain ⟨hclosing, hmessage⟩ : .closeCallBack ∉ effects ∧ .messageCallBack ∉ effects := by
    cases hwrite with
    | idle hmore => simp
    | some hmore hwriting hsplit hout => simp
    | drained hdrains hout => split <;> simp
  have hpoll : (machine app).step s (.poll POLLOUT) = .ok ({ s with handlers := [.write] }, []) := by
    simp only [machine, step, enabled_of (And.intro h.idle
      (Channel.isNoneEvent_of_reading hinterested.reading)), ok_bind]
    rfl
  have hhandle : (machine app).step { s with handlers := [.write] }
      (.handle ⟨.failed 0, .accepted (n + 1)⟩ input (fun _ => .failed 0)) =
      .ok ({ s with conn := conn, handlers := [] }, effects.map .effect) := by
    simp only [machine, step, ok_bind, hrun, if_neg hmessage, h.opened, decide_eq_false hclosing,
      reduceCtorEq, if_false]
    rfl
  refine ⟨{ s with conn := conn, handlers := [] }, effects.map .effect, ?_, ?_,
    (callBack_same hrun).2, ?_, hdrop⟩
  · simp only [Session.writeEvent, Machine.exec, hpoll, hhandle, List.nil_append, List.append_nil]
  · refine ⟨rfl, h.opened, ?_⟩
    show conn.state_ = .kConnected ∨ conn.state_ = .kDisconnecting
    rw [(callBack_same hrun).2]
    exact h.state
  · rw [wire_effects]
    have hstream := callBack_stream hrun
    rw [hdrop] at hstream
    exact List.append_cancel_right (hstream.trans (List.take_append_drop ..).symm)

/-- Behind the events `es`, all output of `s` is on its way, the channel asks for no more write
    events, and the FIN has gone if the connection disconnects. -/
structure Drained (tr : List (SessionEvent I E)) (s : Session A) (es : List (SessionEvent I E))
    (s' : Session A) : Prop where
  written : wire es = s.conn.outputBuffer_.contents
  output : s'.conn.outputBuffer_.contents = []
  writing : s'.conn.channel_.isWriting = false
  state : s'.conn.state_ = s.conn.state_
  farewell : s.conn.state_ = .kDisconnecting → farewell ∈ tr ++ es

/-- When no output waits, nothing is left to be done. -/
theorem Resting.drained (h : s.Resting) (hreach : (machine app).Reach anyStep tr s)
    (hnone : s.conn.outputBuffer_.contents = []) : Drained tr s [] s where
  written := hnone.symm
  output := hnone
  writing := by
    have hattentive := h.attentive hreach
    rw [Bool.eq_false_iff]
    exact fun hwriting => hattentive.interested.writing.mp hwriting hnone
  state := rfl
  farewell := by
    intro hstate
    have hattentive := h.attentive hreach
    rw [List.append_nil]
    refine (hattentive.pending hstate).resolve_right fun hwriting => ?_
    exact hattentive.interested.writing.mp hwriting hnone

/-- Whatever the kernel takes at a time, output that waits is on its way after as many write
    events as it has bytes, or fewer. -/
theorem drains (hreach : (machine app).Reach anyStep tr s) (h : s.Resting) (input : I)
    {takes : List Nat} (henough : s.conn.outputBuffer_.contents.length ≤ takes.length) :
    ∃ k ≤ s.conn.outputBuffer_.contents.length, ∃ s' es,
      (machine app).exec s ((takes.take k).flatMap (writeEvent input)) = .ok (s', es) ∧
      Drained tr s es s' := by
  induction takes generalizing s tr with
  | nil =>
    have hnone := List.length_eq_zero_iff.mp (Nat.le_zero.mp henough)
    exact ⟨0, Nat.zero_le _, s, [], rfl, h.drained hreach hnone⟩
  | cons n rest ih =>
    by_cases hnone : s.conn.outputBuffer_.contents = []
    · exact ⟨0, Nat.zero_le _, s, [], rfl, h.drained hreach hnone⟩
    · obtain ⟨s₁, es₁, hexec₁, hresting, hstate, hwire, hdrop⟩ :=
        h.writeEvent hreach hnone input n
      have hreach₁ := hreach.exec (fun _ _ _ _ => trivial) hexec₁
      have hless : s₁.conn.outputBuffer_.contents.length + 1 ≤
          s.conn.outputBuffer_.contents.length := by
        have hsome := List.length_pos_iff.mpr hnone
        rw [hdrop, List.length_drop]
        omega
      have henough₁ : s₁.conn.outputBuffer_.contents.length ≤ rest.length := by
        rw [List.length_cons] at henough
        omega
      obtain ⟨k, hk, s', es, hexec, hdrained⟩ := ih hreach₁ hresting henough₁
      refine ⟨k + 1, (Nat.succ_le_succ hk).trans hless, s', es₁ ++ es,
        Machine.exec_append hexec₁ hexec, ?_, hdrained.output, hdrained.writing,
        hdrained.state.trans hstate, fun hleaving => ?_⟩
      · rw [wire_append, hwire, hdrained.written, hdrop, List.take_append_drop]
      · rw [← List.append_assoc]
        exact hdrained.farewell (hstate.trans hleaving)

/-- Four bytes of an echo wait, of which the kernel takes one and then the rest. -/
theorem drains_echo : ∃ tr s, (machine echo).Reach anyStep tr s ∧
    s.conn.outputBuffer_.contents = [2, 3, 4, 5] ∧
    ∃ k ≤ 4, ∃ s' es, (machine echo).exec s (([0, 7, 0, 0].take k).flatMap (writeEvent ())) =
      .ok (s', es) ∧ Drained tr s es s' := by
  have hruns : (machine echo).runs (new echo 0 [] 5)
      [.connectEestablished, .receive [1, 2, 3, 4, 5], .poll POLLIN,
        .handle ⟨.delivered [1, 2, 3, 4, 5], .failed 0⟩ () (fun _ => .accepted 1)]
      (fun _ s => s.conn.outputBuffer_.contents = [2, 3, 4, 5] ∧ s.handlers = [] ∧
        s.closing = false ∧ s.conn.state_ = .kConnected) = true := by
    decide +kernel
  obtain ⟨tr, s, hreach, htest⟩ := Machine.exists_reach (M := machine echo) ⟨0, [], 5, rfl⟩ hruns
  obtain ⟨houtput, hidle, hopened, hstate⟩ := of_decide_eq_true htest
  have hlength : s.conn.outputBuffer_.contents.length = 4 := by
    rw [houtput]
    rfl
  refine ⟨tr, s, hreach, houtput, ?_⟩
  rw [← hlength]
  exact drains hreach ⟨hidle, hopened, .inl hstate⟩ () hlength.le

end Session

end TcpNet
